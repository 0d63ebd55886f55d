/-
  JobFleet.Proofs.Fleet.Enrolment: the registry of a scheduler is a map from identities to jobs.

  What a registry says of a job, apart from how the job is driven, is its `Enrolment`.  Whatever
  occurs in a fleet does a few deeds about an identity, most often none, and the registry follows
  the book that one would keep of them: an enrolment replaces what was known, leaving strikes it
  out, pausing and resuming change a flag of what is known.  So the end of a long history is read
  off its last enrolment and what came after it (`Stands`).

  Main results:
    * `foldl_book_eq_some_iff` — what the book says is how the deeds stand.
    * `known_occur`, `known_through` — the registry says what the book says.
    * `register_unlogged` — what is logged has no influence on a registration.
    * `registerAll_eq` — registering several jobs registers those that can be registered.
    * `registry_is_map` — the registry is a map, and what fails leaves it alone.
-/
import JobFleet.Proofs.Fleet.Periods

namespace JobFleet

open JobFleet.Schedule JobFleet.Time

/-! ## The book of deeds -/

/-- What a registry says of a job, however the job is driven. -/
structure Enrolment where
  job : Job
  trigger : Trigger
  paused : Bool

/-- What is done about an identity. -/
inductive Deed
  /-- A job of this identity is registered, instead of the one that was. -/
  | enrols (job : Job) (trigger : Trigger)
  | leaves
  | pauses
  | resumes

/-- What is known of an identity after a deed about it. -/
def Deed.book (known : Option Enrolment) : Deed → Option Enrolment
  | .enrols job trigger => some ⟨job, trigger, false⟩
  | .leaves => none
  | .pauses => known.map (fun en => { en with paused := true })
  | .resumes => known.map (fun en => { en with paused := false })

/-- How deeds leave an identity: it has not left since its last enrolment, and is paused if that was
    the last it heard. -/
def Stands (deeds : List Deed) (en : Enrolment) : Prop :=
  ∃ before after, deeds = before ++ .enrols en.job en.trigger :: after ∧
    (∀ d ∈ after, d = .pauses ∨ d = .resumes) ∧
    (en.paused = true ↔ after.getLast? = some .pauses)

section

variable {deeds : List Deed} {d : Deed} {en : Enrolment}

/-- The last deed was the enrolment, or paused or resumed what stood before. -/
theorem stands_concat_iff : Stands (deeds ++ [d]) en ↔
    (d = .enrols en.job en.trigger ∧ en.paused = false) ∨
      (d = .pauses ∧ en.paused = true ∧ ∃ paused, Stands deeds { en with paused := paused }) ∨
      (d = .resumes ∧ en.paused = false ∧ ∃ paused, Stands deeds { en with paused := paused }) := by
  constructor
  · rintro ⟨before, after, heq, hflags, hpaused⟩
    obtain rfl | ⟨after', d', rfl⟩ := List.eq_nil_or_concat' after
    · -- the last deed is the enrolment itself
      obtain ⟨-, hd⟩ := List.append_inj' heq rfl
      exact .inl ⟨List.singleton_inj.1 hd, by simpa using hpaused⟩
    · rw [← List.cons_append, ← List.append_assoc] at heq
      obtain ⟨hdeeds, hd⟩ := List.append_inj' heq rfl
      have hd : d = d' := List.singleton_inj.1 hd
      subst hd
      rw [List.getLast?_concat, Option.some.injEq] at hpaused
      -- it comes after the enrolment, and what stood before it is paused or not
      have hbefore : ∃ paused, Stands deeds { en with paused := paused } := by
        by_cases hlast : after'.getLast? = some .pauses
        · exact ⟨true, before, after', hdeeds,
            fun d hd => hflags d (List.mem_append_left _ hd), by simp [hlast]⟩
        · exact ⟨false, before, after', hdeeds,
            fun d hd => hflags d (List.mem_append_left _ hd), by simp [hlast]⟩
      obtain rfl | rfl := hflags d (List.mem_append_right _ (List.mem_singleton.2 rfl))
      · exact .inr (.inl ⟨rfl, hpaused.2 rfl, hbefore⟩)
      · exact .inr (.inr ⟨rfl, by simpa using hpaused, hbefore⟩)
  · rintro (⟨rfl, hpaused⟩ | ⟨rfl, hpaused, paused, before, after, rfl, hflags, -⟩ |
      ⟨rfl, hpaused, paused, before, after, rfl, hflags, -⟩)
    · -- the enrolment is found where the deeds end
      exact ⟨deeds, [], rfl, nofun, by simp [hpaused]⟩
    · refine ⟨before, after ++ [.pauses], by simp, ?_, by simp [hpaused]⟩
      intro d hd
      obtain hd | hd := List.mem_append.1 hd
      · exact hflags d hd
      · exact .inl (List.mem_singleton.1 hd)
    · refine ⟨before, after ++ [.resumes], by simp, ?_, by simp [hpaused]⟩
      intro d hd
      obtain hd | hd := List.mem_append.1 hd
      · exact hflags d hd
      · exact .inr (List.mem_singleton.1 hd)

/-- The book that is kept of deeds says how they stand. -/
theorem foldl_book_eq_some_iff : deeds.foldl Deed.book none = some en ↔ Stands deeds en := by
  induction deeds using List.reverseRecOn generalizing en with
  | nil =>
    constructor
    · exact nofun
    · rintro ⟨before, after, heq, -⟩
      exact absurd heq (by simp)
  | append_singleton deeds d ih =>
    -- what was known before the last deed is known up to the flag that the deed sets
    have hflag : ∀ flag, (deeds.foldl Deed.book none).map (fun en => { en with paused := flag }) =
      some en ↔
        en.paused = flag ∧ ∃ paused, Stands deeds { en with paused := paused } := by
      intro flag
      rw [Option.map_eq_some_iff]
      constructor
      · rintro ⟨en₀, hbook, rfl⟩
        exact ⟨rfl, en₀.paused, ih.1 hbook⟩
      · rintro ⟨rfl, paused, hstands⟩
        exact ⟨_, ih.2 hstands, rfl⟩
    rw [List.foldl_append, stands_concat_iff]
    cases d with
    | enrols job trigger =>
      obtain ⟨job', trigger', paused⟩ := en
      simp only [List.foldl_cons, List.foldl_nil, Deed.book, Option.some.injEq, Enrolment.mk.injEq,
        Deed.enrols.injEq]
      grind
    | leaves => simp [Deed.book]
    | pauses => simpa [Deed.book] using hflag true
    | resumes => simpa [Deed.book] using hflag false

end

/-! ## What a move does about an identity -/

/-- The trigger with which a job is registered: none if the job is disabled or its schedule
    malformed. -/
def Job.trigger? (zone : Zone) (job : Job) : Option Trigger :=
  if job.definition.enabled then (job.definition.trigger zone).toOption else none

/-- The enrolments of an identity when jobs are handed in. -/
def enrolmentsIn (zone : Zone) (id : String) (jobs : List Job) : List Deed :=
  jobs.filterMap (fun job => if job.id = id then (job.trigger? zone).map (.enrols job) else none)

/-- What a move does about an identity of a scheduler that evaluates cron expressions in a zone. -/
def Move.deeds (i : Nat) (zone : Zone) (id : String) : Move → List Deed
  | .register j job => if j = i then enrolmentsIn zone id [job] else []
  | .registerAll j jobs => if j = i then enrolmentsIn zone id jobs else []
  | .remove j id' => if j = i ∧ id' = id then [.leaves] else []
  | .pause j id' => if j = i ∧ id' = id then [.pauses] else []
  | .resume j id' => if j = i ∧ id' = id then [.resumes] else []
  | .turn _ | .pass _ | .fail _ | .start _ | .shutdown _ _ _ | .request _ _ _ _ _ => []

/-- What a row of occurrences does about an identity of a scheduler. -/
def deedsOf (i : Nat) (zone : Zone) (id : String) (row : List Occurrence) : List Deed :=
  row.flatMap (fun o => o.plain.deeds i zone id)

/-! ## What a registry knows -/

namespace Entry

variable {e : Entry} {entries entries' : List Entry} {id : String}

/-- What an entry says of its job. -/
def enrolment (e : Entry) : Enrolment := ⟨e.job, e.trigger, e.paused⟩

/-- In a sorted registry the entry of an identity is the one that is found. -/
theorem Sorted.find?_eq_some_iff (h : Sorted entries) : Entry.find? id entries = some e ↔
    e ∈ entries ∧ e.id = id := by
  constructor
  · exact find?_eq_some
  · rintro ⟨he, hid⟩
    cases hfound : Entry.find? id entries with
    | none => exact absurd hid (find?_eq_none hfound e he)
    | some e' =>
      obtain ⟨he', hid'⟩ := find?_eq_some hfound
      rw [h.eq_of_id he he' (hid.trans hid'.symm)]

/-- After a swap the identity has its new entry or none, and any other identity has what it had. -/
theorem find?_of_swapped {new : Option Entry} (h : Sorted entries)
    (hnew : ∀ e, new = some e → e.id = id)
    (hswapped : Swapped id new entries entries') (id' : String) :
    Entry.find? id' entries' = if id' = id then new else Entry.find? id' entries := by
  apply Option.ext
  intro e
  rw [hswapped.1.find?_eq_some_iff, hswapped.2]
  split
  · rename_i heq
    subst heq
    constructor
    · rintro ⟨⟨-, hne⟩ | hsome, hid⟩
      · exact absurd hid hne
      · exact hsome
    · exact fun hsome => ⟨.inr hsome, hnew e hsome⟩
  · rename_i hne
    rw [h.find?_eq_some_iff]
    constructor
    · rintro ⟨⟨hold, -⟩ | hsome, hid⟩
      · exact ⟨hold, hid⟩
      · exact absurd (hid.symm.trans (hnew e hsome)) hne
    · rintro ⟨hold, hid⟩
      exact ⟨.inl ⟨hold, fun heq => hne (hid.symm.trans heq)⟩, hid⟩

end Entry

namespace Fleet

section

variable {σ : Type} {f g : Fleet σ} {i j : Nat} {id : String} {zone : Zone} {job : Job}

/-- What a scheduler knows of an identity. -/
def known (f : Fleet σ) (i : Nat) (id : String) : Option Enrolment :=
  (Entry.find? id (f.registry i)).map Entry.enrolment

theorem known_congr (h : g.registry i = f.registry i) (id : String) :
    g.known i id = f.known i id := by
  unfold known
  rw [h]

/-- How entries are driven does not matter to what is known. -/
theorem known_of_enrolments
    (h : (g.registry i).map Entry.enrolment = (f.registry i).map Entry.enrolment) (id : String) :
    g.known i id = f.known i id := by
  have hknown : ∀ k : Fleet σ, k.known i id =
      ((k.registry i).map Entry.enrolment).find? (fun en => en.job.id = id) := by
    intro k
    rw [List.find?_map]
    rfl
  rw [hknown, hknown, h]

/-- After a swap the new entry is known under its identity, and under all others what was. -/
theorem known_of_swaps (hw : f.Wired) {new : Option Entry} (h : Swaps i id new f g) (id' : String) :
    g.known i id' = if id' = id then new.map Entry.enrolment else f.known i id' := by
  unfold known
  rw [Entry.find?_of_swapped (hw.sorted i) (fun e hnew => h.id_eq hnew) h.swapped id']
  split <;> rfl

theorem exists_of_zone? (h : f.zone? i = some zone) :
    ∃ s, f.schedulers[i]? = some s ∧ s.config.zone = zone :=
  Option.map_eq_some_iff.1 h

/-- The identities that a scheduler lists are those it knows. -/
theorem mem_ids_iff : id ∈ f.ids i ↔ ∃ en, f.known i id = some en := by
  have hids : f.ids i = (f.registry i).map Entry.id := by
    unfold ids registry entriesOf Scheduler.ids
    cases f.schedulers[i]? with
    | none => rfl
    | some s =>
      show s.entries.map Entry.id = (s.entries.map Entry.plain).map Entry.id
      rw [List.map_map]
      rfl
  rw [hids, List.mem_map]
  unfold known
  simp only [Option.map_eq_some_iff]
  constructor
  · rintro ⟨e, he, rfl⟩
    cases hfound : Entry.find? e.id (f.registry i) with
    | none => exact absurd rfl (Entry.find?_eq_none hfound e he)
    | some e' => exact ⟨_, e', rfl, rfl⟩
  · rintro ⟨en, e, hfound, -⟩
    obtain ⟨he, hid⟩ := Entry.find?_eq_some hfound
    exact ⟨e, he, hid⟩

/-! ## Requests about jobs -/

/-- Registering a job that can be registered puts an entry for it in. -/
theorem register_of_some {s : Scheduler} {trigger : Trigger} (hsched : f.schedulers[i]? = some s)
    (htrigger : job.trigger? s.config.zone = some trigger) :
    (f.register i job).1 = .ok true ∧ ∃ entry : Entry, entry.enrolment = ⟨job, trigger, false⟩ ∧
      (f.register i job).2.schedulers =
        f.schedulers.modify i (fun s => { s with entries := Entry.insert entry s.entries }) := by
  unfold Job.trigger? at htrigger
  split at htrigger
  · rename_i henabled
    have hok : job.definition.trigger s.config.zone = .ok trigger := by
      cases hread : job.definition.trigger s.config.zone with
      | error fault =>
        rw [hread] at htrigger
        cases htrigger
      | ok trigger' =>
        rw [hread] at htrigger
        cases htrigger
        rfl
    unfold register
    simp only [hsched, henabled, hok]
    cases s.running with
    | true => exact ⟨rfl, _, rfl, (enter_spec _ i _).1⟩
    | false => exact ⟨rfl, _, rfl, (enter_spec _ i _).1⟩
  · cases htrigger

/-- Registering a job that cannot be registered changes nothing but the log. -/
theorem register_of_none {s : Scheduler} (hsched : f.schedulers[i]? = some s)
    (hnone : job.trigger? s.config.zone = none) :
    (f.register i job).1 ≠ .ok true ∧ ∃ log, (f.register i job).2 =
      f.changeWorld (fun w => { w with log := log }) := by
  unfold Job.trigger? at hnone
  unfold register
  simp only [hsched]
  split at hnone
  · rename_i henabled
    cases hread : job.definition.trigger s.config.zone with
    | error fault =>
      simp only [henabled]
      exact ⟨nofun, f.world.log, rfl⟩
    | ok trigger =>
      rw [hread] at hnone
      cases hnone
  · rename_i hdisabled
    simp only [hdisabled]
    exact ⟨nofun, _, rfl⟩

/-- Registering a job is its enrolment in the book, or nothing if it cannot be registered. -/
theorem known_register (hw : f.Wired) (hzone : f.zone? i = some zone) (job : Job) (id : String) :
    (f.register i job).2.known i id =
      (enrolmentsIn zone id [job]).foldl Deed.book (f.known i id) := by
  obtain ⟨s, hsched, rfl⟩ := exists_of_zone? hzone
  cases htrigger : job.trigger? s.config.zone with
  | none =>
    obtain ⟨-, log, hlog⟩ := register_of_none hsched htrigger
    simp only [enrolmentsIn, List.filterMap_cons, htrigger, Option.map_none, ite_self,
      List.filterMap_nil, List.foldl_nil, hlog]
    rfl
  | some trigger =>
    obtain ⟨-, entry, hentry, hschedulers⟩ := register_of_some hsched htrigger
    have hjob : entry.job = job := congrArg Enrolment.job hentry
    have hswapped := (Entry.swapped_insert (hw.sorted_entriesOf i) entry).plain
    rw [← registry_of_modify hschedulers ⟨s, hsched⟩] at hswapped
    have hnew : ∀ e, (some entry).map Entry.plain = some e → e.id = entry.id := by
      intro e he
      cases he
      rfl
    unfold known
    rw [Entry.find?_of_swapped (hw.sorted i) hnew hswapped id]
    by_cases hid : job.id = id
    · have hid' : id = entry.id := hid.symm.trans (congrArg Job.id hjob.symm)
      rw [if_pos hid']
      simp only [enrolmentsIn, List.filterMap_cons, if_pos hid, htrigger, Option.map_some,
        List.filterMap_nil, List.foldl_cons, List.foldl_nil, Deed.book, ← hentry]
      rfl
    · have hid' : id ≠ entry.id := fun heq => hid ((congrArg Job.id hjob).symm.trans heq.symm)
      rw [if_neg hid']
      simp only [enrolmentsIn, List.filterMap_cons, if_neg hid, List.filterMap_nil, List.foldl_nil]

/-- Registering several jobs is the row of their enrolments. -/
theorem known_registerAll (hs : f.Sound) (hw : f.Wired) (hzone : f.zone? i = some zone)
    (jobs : List Job) (id : String) :
    (f.registerAll i jobs).2.known i id =
      (enrolmentsIn zone id jobs).foldl Deed.book (f.known i id) := by
  induction jobs generalizing f with
  | nil => rfl
  | cons job rest ih =>
    have hknown := known_register hw hzone job id
    have hrewires := (enters_register hs hw i job).rewires
    have hsound := (calm_register hs i job).sound
    have hzone' := hrewires.zone.trans hzone
    have hsplit : enrolmentsIn zone id (job :: rest) =
        enrolmentsIn zone id [job] ++ enrolmentsIn zone id rest :=
      List.filterMap_append (l := [job])
    rw [hsplit, List.foldl_append, ← hknown]
    unfold registerAll
    rcases hanswer : f.register i job with ⟨answer, g⟩
    rw [hanswer] at hrewires hsound hzone'
    cases answer with
    | ok registered => exact ih hsound hrewires.wired hzone'
    | error fault =>
      have hlog := hrewires.alike (alike_changeWorld (·.emit .error "Failed to register job"
        [("job_id", .str job.id), ("error", .str fault.message)]))
      exact ih (calm_emit hsound _ _ _).sound hlog.wired hzone'

/-- A job that is not registered cannot be paused. -/
theorem pause_of_none (hnone : Entry.find? id (f.entriesOf i) = none) :
    f.pause i id = (.error (.jobNotFound id), f) := by
  unfold pause
  rw [hnone]

/-- A job that is not known cannot be resumed, and nothing changes. -/
theorem resume_of_none (hnone : Entry.find? id (f.entriesOf i) = none) :
    f.resume i id = (.error (.jobNotFound id), f) := by
  unfold resume
  rw [hnone]

theorem remove_of_none (hnone : Entry.find? id (f.entriesOf i) = none) :
    f.remove i id = (.error (.jobNotFound id), f) := by
  unfold remove
  rw [hnone]

/-- A request about one job that does nothing where the job is unknown, and swaps its entry where it
    is known, is a deed. -/
theorem known_request (hw : f.Wired) {d : Deed} (hd : d.book none = none)
    (hnone : Entry.find? id (f.entriesOf i) = none → g = f)
    (hsome : ∀ e, Entry.find? id (f.entriesOf i) = some e →
      ∃ new, Swaps i id new f g ∧ new.map Entry.enrolment = d.book (some e.enrolment))
    (id' : String) :
    g.known i id' = if id' = id then d.book (f.known i id') else f.known i id' := by
  have hknown : f.known i id = (Entry.find? id (f.entriesOf i)).map Entry.enrolment := by
    unfold known registry Entry.find?
    rw [List.find?_map, Option.map_map]
    rfl
  cases hfound : Entry.find? id (f.entriesOf i) with
  | none =>
    rw [hfound] at hknown
    rw [hnone hfound]
    split
    · rename_i heq
      rw [heq, hknown]
      exact hd.symm
    · rfl
  | some e =>
    obtain ⟨new, hswaps, hnew⟩ := hsome e hfound
    rw [hfound] at hknown
    rw [known_of_swaps hw hswaps]
    split
    · rename_i heq
      rw [heq, hknown]
      exact hnew
    · rfl

/-- Pausing is booked as pausing, under the identity and no other. -/
theorem known_pause (hw : f.Wired) (i : Nat) (id id' : String) : (f.pause i id).2.known i id' =
    if id' = id then Deed.pauses.book (f.known i id') else f.known i id' :=
  known_request hw rfl (fun hnone => congrArg Prod.snd (pause_of_none hnone))
    (fun _ hfound => ⟨_, swaps_pause hw hfound, rfl⟩) id'

theorem known_remove (hw : f.Wired) (i : Nat) (id id' : String) : (f.remove i id).2.known i id' =
    if id' = id then Deed.leaves.book (f.known i id') else f.known i id' :=
  known_request hw rfl (fun hnone => congrArg Prod.snd (remove_of_none hnone))
    (fun _ hfound => ⟨_, swaps_remove hw hfound, rfl⟩) id'

theorem known_resume (hw : f.Wired) (i : Nat) (id id' : String) : (f.resume i id).2.known i id' =
    if id' = id then Deed.resumes.book (f.known i id') else f.known i id' := by
  refine known_request hw rfl (fun hnone => congrArg Prod.snd (resume_of_none hnone)) ?_ id'
  intro e hfound
  by_cases hstarts : (f.isRunning i && e.driver.isNone) = true
  · exact ⟨_, swaps_resume_driven hw hfound hstarts, rfl⟩
  · exact ⟨_, swaps_resume_idle hw hfound hstarts, rfl⟩

/-! ## Starting and stopping -/

/-- Drivers come and go without changing what a registry says of its jobs. -/
theorem enrolments_startDrivers (i : Nat) (entries : List Entry) (f : Fleet σ) :
    (f.startDrivers i entries).1.map Entry.enrolment = entries.map Entry.enrolment := by
  induction entries generalizing f with
  | nil => rfl
  | cons e rest ih =>
    rcases hfirst : (if e.paused then (e, f) else f.startDriver i e) with ⟨e', g⟩
    rw [startDrivers_cons f i e rest hfirst, List.map_cons, List.map_cons, ih g]
    have hsame : e'.enrolment = e.enrolment := by
      split at hfirst <;> cases hfirst <;> rfl
    rw [hsame]

/-- Starting a scheduler changes nothing of what is known. -/
theorem known_start (hw : f.Wired) (i j : Nat) (id : String) :
    (f.start j).known i id = f.known i id := by
  by_cases hi : i = j
  · subst hi
    cases hruns : f.isRunning i with
    | true =>
      unfold start
      rw [if_pos hruns]
      rfl
    | false =>
      cases hsched : f.schedulers[i]? with
      | none => exact known_congr (registry_congr (alike_start_of_none hsched).frames i) id
      | some s =>
        -- the entries are those that were given drivers
        have hschedulers : (f.start i).schedulers = f.schedulers.modify i
            (fun s => { s with running := true,
                               entries := (f.startDrivers i (f.entriesOf i)).1 }) := by
          rw [start_of_idle hruns]
          show (f.startDrivers i (f.entriesOf i)).2.schedulers.modify i _ = _
          rw [(startsDrivers_startDrivers i (f.entriesOf i) f).schedulers]
        have hself := getElem?_of_modify hschedulers
        rw [hsched] at hself
        apply known_of_enrolments
        unfold registry
        rw [entriesOf_of_getElem? hself, List.map_map, List.map_map]
        exact enrolments_startDrivers i (f.entriesOf i) f
  · cases hruns : f.isRunning j with
    | true =>
      unfold start
      rw [if_pos hruns]
      rfl
    | false =>
      cases hsched : f.schedulers[j]? with
      | none => exact known_congr (registry_congr (alike_start_of_none hsched).frames i) id
      | some s => exact known_congr ((starts_start hw hruns hsched).others i hi).registry id

/-! ## What is counted and what is logged -/

/-- The gauge shows the number of entries after a registration. -/
theorem gauge_register (h : (f.register i job).1 = .ok true) :
    (f.register i job).2.world.metrics.registered =
      some ((f.register i job).2.entriesOf i).length := by
  unfold register at h ⊢
  cases hsched : f.schedulers[i]? with
  | none =>
    rw [hsched] at h
    cases h
  | some s =>
    simp only [hsched] at h ⊢
    split at h
    · cases h
    · rename_i henabled
      rw [if_neg henabled]
      cases hread : job.definition.trigger s.config.zone with
      | error fault =>
        rw [hread] at h
        cases h
      | ok trigger => rfl

/-- After a removal the gauge shows how many jobs are left. -/
theorem gauge_remove (h : (f.remove i id).1 = .ok ()) :
    (f.remove i id).2.world.metrics.registered = some ((f.remove i id).2.entriesOf i).length := by
  unfold remove at h ⊢
  cases hfound : Entry.find? id (f.entriesOf i) with
  | none =>
    rw [hfound] at h
    cases h
  | some e => rfl

/-- A fleet without its log. -/
def unlogged (f : Fleet σ) : Fleet σ := f.changeWorld (fun w => { w with log := [] })

/-- Entering a job does the same whatever the log says. -/
theorem enter_unlogged (f : Fleet σ) (i : Nat) (e : Entry) :
    (f.unlogged.enter i e).unlogged = (f.enter i e).unlogged := by
  unfold enter
  have hentries : f.unlogged.entriesOf i = f.entriesOf i := rfl
  rw [hentries]
  cases Entry.find? e.id (f.entriesOf i) with
  | none => rfl
  | some old =>
    simp only [abortDriver]
    cases old.driver <;> rfl

/-- What was logged has no influence on a registration. -/
theorem register_unlogged (f : Fleet σ) (i : Nat) (job : Job) :
    (f.unlogged.register i job).1 = (f.register i job).1 ∧
      (f.unlogged.register i job).2.unlogged = (f.register i job).2.unlogged := by
  unfold register
  have hschedulers : f.unlogged.schedulers = f.schedulers := rfl
  rw [hschedulers]
  cases f.schedulers[i]? with
  | none => exact ⟨rfl, rfl⟩
  | some s =>
    simp only
    split
    · exact ⟨rfl, rfl⟩
    · cases job.definition.trigger s.config.zone with
      | error fault => exact ⟨rfl, rfl⟩
      | ok trigger =>
        -- the gauge is set and the log is written after the entry is in
        have hshown : ∀ (fields : List (String × Json)) (e : Entry) (g : Fleet σ),
            (((g.unlogged.enter i e).showRegistered i).changeWorld
              (·.emit .info "Job registered" fields)).unlogged =
              (((g.enter i e).showRegistered i).changeWorld
                (·.emit .info "Job registered" fields)).unlogged := by
          intro fields e g
          exact congrArg (fun k : Fleet σ => k.showRegistered i) (enter_unlogged g i e)
        cases s.running with
        | true => exact ⟨rfl, hshown _ _ ((f.freshEntry job trigger).2.startDriver i _).2⟩
        | false => exact ⟨rfl, hshown _ _ (f.freshEntry job trigger).2⟩

/-- Registers jobs one after the other, whatever comes of it. -/
def registerEach (i : Nat) (jobs : List Job) (f : Fleet σ) : Fleet σ :=
  jobs.foldl (fun f job => (f.register i job).2) f

/-- Registering one by one does the same to fleets that differ in their logs only. -/
theorem registerEach_congr (h : f.unlogged = g.unlogged) (jobs : List Job) :
    (f.registerEach i jobs).unlogged = (g.registerEach i jobs).unlogged := by
  induction jobs generalizing f g with
  | nil => exact h
  | cons job rest ih =>
    refine ih ?_
    rw [← (register_unlogged f i job).2, h, (register_unlogged g i job).2]

/-- Registering several jobs counts and registers those that can be registered, in order. -/
theorem registerAll_eq (hzone : f.zone? i = some zone) (jobs : List Job) :
    (f.registerAll i jobs).1 = (jobs.filter (fun job => (job.trigger? zone).isSome)).length ∧
      (f.registerAll i jobs).2.unlogged =
        (f.registerEach i (jobs.filter (fun job => (job.trigger? zone).isSome))).unlogged := by
  induction jobs generalizing f with
  | nil => exact ⟨rfl, rfl⟩
  | cons job rest ih =>
    obtain ⟨s, hsched, rfl⟩ := exists_of_zone? hzone
    unfold registerAll
    cases htrigger : job.trigger? s.config.zone with
    | none =>
      -- a job without trigger only leaves a line in the log
      obtain ⟨hrefused, log, hlog⟩ := register_of_none hsched htrigger
      rw [List.filter_cons_of_neg (by simp [htrigger])]
      rcases hanswer : f.register i job with ⟨answer, g⟩
      rw [hanswer] at hrefused hlog
      simp only at hlog
      subst hlog
      cases answer with
      | ok registered =>
        obtain ⟨hcount, heffect⟩ := ih (f := f.changeWorld (fun w => { w with log := log })) hzone
        -- it is disabled, which is no failure
        have hfalse : registered = false := by
          cases registered with
          | true => exact absurd rfl hrefused
          | false => rfl
        have hquiet : (f.changeWorld (fun w => { w with log := log })).unlogged = f.unlogged := rfl
        refine ⟨?_, heffect.trans (registerEach_congr hquiet _)⟩
        show _ + registered.toNat = _
        rw [hfalse, hcount]
        rfl
      | error fault =>
        -- it is malformed, which is logged once more
        let g := (f.changeWorld (fun w => { w with log := log })).changeWorld
          (·.emit .error "Failed to register job" [("job_id", .str job.id),
            ("error", .str fault.message)])
        obtain ⟨hcount, heffect⟩ := ih (f := g) hzone
        have hquiet : g.unlogged = f.unlogged := rfl
        exact ⟨hcount, heffect.trans (registerEach_congr hquiet _)⟩
    | some trigger =>
      -- any other job is entered, and the zone stays
      obtain ⟨haccepted, entry, -, hschedulers⟩ := register_of_some hsched htrigger
      rw [List.filter_cons_of_pos (by simp [htrigger]), List.length_cons]
      have hzone' : (f.register i job).2.zone? i = some s.config.zone := by
        unfold zone?
        rw [getElem?_of_modify hschedulers, hsched]
        rfl
      obtain ⟨hcount, heffect⟩ := ih hzone'
      rcases hanswer : f.register i job with ⟨answer, g⟩
      rw [hanswer] at haccepted hcount heffect
      simp only at haccepted
      subst haccepted
      refine ⟨congrArg (· + 1) hcount, heffect.trans ?_⟩
      unfold registerEach
      rw [List.foldl_cons, hanswer]

end

/-! ## Every occurrence -/

variable {f g : Fleet FaultyStore} {o : Occurrence} {i : Nat} {zone : Zone}

/-- What is known does not change without a request to a registry. -/
theorem known_of_turns (hs : f.Sound) (h : f.Turns o g) (i : Nat) (id : String) :
    g.known i id = f.known i id :=
  known_congr (registry_congr (turned_of_turns hs h).frames i) id

/-- A shutdown takes the drivers of a scheduler away and leaves the jobs. -/
theorem known_of_stops {j : Nat} {waits : Bool} (h : Stops j waits f g) (i : Nat) (id : String) :
    g.known i id = f.known i id := by
  obtain ⟨mid, d, htells, hturned⟩ := h.turned
  refine (known_congr (registry_congr hturned.frames i) id).trans ?_
  by_cases hi : i = j
  · subst hi
    apply known_of_enrolments
    rw [htells.registry, List.map_map]
    rfl
  · exact known_congr (htells.others i hi).registry id

/-- After any occurrence the scheduler knows what it knew before and what was done since. -/
theorem known_occur (hs : f.Sound) (hw : f.Wired) (hzone : f.zone? i = some zone)
    (o : Occurrence) (id : String) :
    (f.occur o).known i id = (o.plain.deeds i zone id).foldl Deed.book (f.known i id) := by
  -- what is asked of another scheduler concerns only that one
  have hothers : ∀ {j : Nat} {g : Fleet FaultyStore} {started : Prop} {deeds : List Deed},
    Rewires started j f g →
      (j = i → g.known i id = deeds.foldl Deed.book (f.known i id)) →
      g.known i id = (if j = i then deeds else []).foldl Deed.book (f.known i id) := by
    intro j g started deeds hrewires hsame
    by_cases hj : j = i
    · rw [if_pos hj]
      exact hsame hj
    · rw [if_neg hj]
      exact known_congr (hrewires.others i (Ne.symm hj)).registry id
  have hrequest : ∀ {j : Nat} {id' : String} {g : Fleet FaultyStore} {started : Prop} {d : Deed},
    Rewires started j f g →
      (j = i → g.known i id = if id = id' then d.book (f.known i id) else f.known i id) →
      g.known i id = (if j = i ∧ id' = id then [d] else []).foldl Deed.book (f.known i id) := by
    intro j id' g started d hrewires hsame
    rw [ite_and]
    refine hothers hrewires ?_
    intro hj
    rw [hsame hj]
    by_cases hid : id = id'
    · rw [if_pos hid, if_pos hid.symm]
      rfl
    · rw [if_neg hid, if_neg (Ne.symm hid)]
      rfl
  cases o with
  | race number => exact known_of_turns hs (turns_race hs number) i id
  | move m honest =>
    cases m with
    | turn number => exact known_of_turns (o := .race number) hs (turns_advance hs rfl) i id
    | pass moment => exact known_congr (registry_congr (alike_passTo moment).frames i) id
    | fail operations => rfl
    | request j id' kind caller foreground =>
      exact known_of_turns hs
        (turns_request honest (.move (.request j id' kind caller foreground) honest)) i id
    | register j job =>
      refine hothers (enters_register hs hw j job).rewires ?_
      rintro rfl
      exact known_register hw hzone job id
    | registerAll j jobs =>
      refine hothers (enters_registerAll hs hw j jobs).rewires ?_
      rintro rfl
      exact known_registerAll hs hw hzone jobs id
    | pause j id' =>
      refine hrequest ((asked_pause hw j id').rewires hs hw) ?_
      rintro rfl
      exact known_pause hw j id' id
    | resume j id' =>
      refine hrequest ((asked_resume hw j id').rewires hs hw) ?_
      rintro rfl
      exact known_resume hw j id' id
    | remove j id' =>
      refine hrequest ((asked_remove hw j id').rewires hs hw) ?_
      rintro rfl
      exact known_remove hw j id' id
    | start j => exact known_start hw i j id
    | shutdown j waits foreground =>
      by_cases hruns : f.isRunning j = true
      · exact known_of_stops (stops_shutdown hs hruns waits foreground).2 i id
      · show (f.shutdown j waits foreground).2.known i id = _
        unfold shutdown
        rw [if_pos (by simpa using hruns)]
        rfl

/-- The registry says what the book of a whole row of occurrences says. -/
theorem known_through (h : f.Pristine) (hzone : f.zone? i = some zone)
    (row : List Occurrence) (id : String) :
    (f.through row).known i id = (deedsOf i zone id row).foldl Deed.book none := by
  induction row using List.reverseRecOn with
  | nil =>
    show f.known i id = none
    unfold known
    rw [h.registry]
    rfl
  | append_singleton row o ih =>
    have hstep := known_occur (sound_through h.sound row) (wired_through h row)
      ((zone?_through h row i).trans hzone) o id
    have hdeeds : deedsOf i zone id (row ++ [o]) =
        deedsOf i zone id row ++ o.plain.deeds i zone id := by
      unfold deedsOf
      rw [List.flatMap_append, List.flatMap_singleton]
    rw [through_concat, hstep, ih, hdeeds, List.foldl_append]

/-! ## The registry as a map -/

/-- What calls do to the registry of a scheduler that evaluates cron expressions in a zone. -/
structure KeepsMap {σ : Type} (f : Fleet σ) (i : Nat) (zone : Zone) : Prop where
  /-- A job is registered if it is enabled and its schedule well formed. -/
  registers : ∀ job, (f.register i job).1 = .ok true ↔ ∃ trigger, job.trigger? zone = some trigger
  /-- A registration that fails or registers nothing changes nothing but the log. -/
  refused : ∀ job, (f.register i job).1 ≠ .ok true → (f.register i job).2.unlogged = f.unlogged
  /-- What is not registered is not found, and nothing changes. -/
  unknown : ∀ id, id ∉ f.ids i → f.pause i id = (.error (.jobNotFound id), f) ∧
    f.resume i id = (.error (.jobNotFound id), f) ∧ f.remove i id = (.error (.jobNotFound id), f)
  /-- The gauge shows the number of entries after a registration. -/
  gaugeRegistered : ∀ job, (f.register i job).1 = .ok true →
    (f.register i job).2.world.metrics.registered = some ((f.register i job).2.entriesOf i).length
  /-- The gauge shows the number of entries after a removal. -/
  gaugeRemoved : ∀ id, (f.remove i id).1 = .ok () →
    (f.remove i id).2.world.metrics.registered = some ((f.remove i id).2.entriesOf i).length
  /-- Registering several jobs counts and registers those that can be registered, in order. -/
  registersAll : ∀ jobs, (f.registerAll i jobs).1 =
    (jobs.filter (fun job => (job.trigger? zone).isSome)).length ∧
    (f.registerAll i jobs).2.unlogged =
      (f.registerEach i (jobs.filter (fun job => (job.trigger? zone).isSome))).unlogged

/-- A scheduler of any fleet keeps its registry as a map. -/
theorem keepsMap {σ : Type} {f : Fleet σ} (hzone : f.zone? i = some zone) : f.KeepsMap i zone := by
  obtain ⟨s, hsched, rfl⟩ := exists_of_zone? hzone
  refine ⟨?_, ?_, ?_, fun _ => gauge_register, fun _ => gauge_remove, registerAll_eq hzone⟩
  · intro job
    cases htrigger : job.trigger? s.config.zone with
    | none => simpa using (register_of_none hsched htrigger).1
    | some trigger => simpa using (register_of_some hsched htrigger).1
  · intro job hrefused
    cases htrigger : job.trigger? s.config.zone with
    | none =>
      obtain ⟨-, log, hlog⟩ := register_of_none hsched htrigger
      rw [hlog]
      rfl
    | some trigger => exact absurd (register_of_some hsched htrigger).1 hrefused
  · intro id hunknown
    have hnone : Entry.find? id (f.entriesOf i) = none := by
      cases hfound : Entry.find? id (f.entriesOf i) with
      | none => rfl
      | some e =>
        obtain ⟨he, hid⟩ := Entry.find?_eq_some hfound
        refine absurd ?_ hunknown
        unfold ids
        rw [entriesOf_of_getElem? hsched] at he
        rw [hsched]
        exact List.mem_map.2 ⟨e, he, hid⟩
    exact ⟨pause_of_none hnone, resume_of_none hnone, remove_of_none hnone⟩

/-- **The registry is a map.**  Whatever was asked of the schedulers, and whatever their tasks have
    done since: the identities that a scheduler lists are in strict order, and they are those that
    have not been removed since they were last registered.  Each entry has the job and the trigger
    of that registration, and is paused if the last thing asked for it since then was to pause it.
    The gauge shows the number of entries after each registration and each removal; a call that
    fails or registers nothing changes nothing; and registering several jobs is registering those
    that can be registered. -/
theorem registry_is_map {f : Fleet FaultyStore} {i : Nat} {zone : Zone} (hpristine : f.Pristine)
    (hzone : f.zone? i = some zone) (row : List Occurrence) :
    ((f.through row).ids i).Pairwise (· < ·) ∧
    (∀ id, id ∈ (f.through row).ids i ↔ ∃ en, Stands (deedsOf i zone id row) en) ∧
    (∀ e ∈ (f.through row).entriesOf i, Stands (deedsOf i zone e.id row) e.enrolment) ∧
    (f.through row).KeepsMap i zone := by
  have hw := wired_through hpristine row
  refine ⟨?_, ?_, ?_, keepsMap ((zone?_through hpristine row i).trans hzone)⟩
  · have hsorted := hw.sorted_entriesOf i
    unfold ids
    unfold entriesOf at hsorted
    cases hsched : (f.through row).schedulers[i]? with
    | none => exact List.Pairwise.nil
    | some s =>
      rw [hsched] at hsorted
      exact List.pairwise_map.2 hsorted
  · intro id
    rw [mem_ids_iff]
    exact exists_congr fun en => by rw [known_through hpristine hzone, foldl_book_eq_some_iff]
  · intro e he
    rw [← foldl_book_eq_some_iff, ← known_through hpristine hzone]
    have hfound : Entry.find? e.id ((f.through row).registry i) = some e.plain :=
      (hw.sorted i).find?_eq_some_iff.2 ⟨List.mem_map_of_mem he, rfl⟩
    unfold known
    rw [hfound]
    rfl

/-- A job is registered, started, paused, and registered again with another lease among jobs that
    cannot be registered; then it is paused, and one that nobody knows is removed. -/
def enrolling : List Occurrence :=
  let dormant : Job := { Job.sleeper 2000 [500] with definition :=
    { (Job.sleeper 2000 [500]).definition with enabled := false } }
  [.move (.register 0 (.sleeper 2000 [500])), .move (.start 0), .move (.turn 1),
    .move (.pause 0 "sleeper"), .move (.registerAll 0 [.sleeper 3000 [100], dormant]),
    .move (.pause 0 "sleeper"), .move (.remove 0 "stranger")]

/-- The last registration stands, and it is paused. -/
theorem registry_is_map_enrolling : (untouched.through enrolling).ids 0 = ["sleeper"] ∧
    Stands (deedsOf 0 Zone.utc "sleeper" enrolling) ⟨.sleeper 3000 [100], .interval ⟨1⟩, true⟩ ∧
    (untouched.through enrolling).KeepsMap 0 Zone.utc := by
  have hentries : (untouched.through enrolling).entriesOf 0 =
      [⟨2, .sleeper 3000 [100], .interval ⟨1⟩, true, none, none⟩] := by
    rfl
  have hzone : untouched.zone? 0 = some Zone.utc := rfl
  obtain ⟨-, -, hstands, hkeeps⟩ := registry_is_map pristine_untouched hzone enrolling
  have hmem : (⟨2, .sleeper 3000 [100], .interval ⟨1⟩, true, none, none⟩ : Entry) ∈
      (untouched.through enrolling).entriesOf 0 := by
    rw [hentries]
    exact List.mem_singleton.2 rfl
  exact ⟨rfl, hstands _ hmem, hkeeps⟩

end Fleet

end JobFleet
