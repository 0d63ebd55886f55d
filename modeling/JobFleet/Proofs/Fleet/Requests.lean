/-
  JobFleet.Proofs.Fleet.Requests: what a scheduler is asked to do about its jobs.

  Registering, pausing, resuming and removing a job are swaps of its entry; registering several is a
  row of them.  Starting a scheduler that does not run gives every entry that is not paused a driver
  of its own, all at once.

  Main results:
    * `asked_pause`, `asked_resume`, `asked_remove` — each of these swaps the entry of the job, if
      it has one.
    * `Asked.rewires`, `enters_register`, `enters_registerAll`, `rewires_start` — whatever is asked
      rewires the fleet.
-/
import JobFleet.Proofs.Fleet.Swaps

namespace JobFleet

open JobFleet.Schedule

namespace Fleet

variable {σ : Type} {f g : Fleet σ} {i j : Nat} {id : String} {e : Entry}

/-- The registries of a wired fleet are sorted by identity. -/
theorem Wired.sorted_entriesOf (hw : f.Wired) (i : Nat) : Entry.Sorted (f.entriesOf i) :=
  Entry.sorted_map_plain.1 (hw.sorted i)

/-- A number that an entry calls its driver has been given out. -/
theorem Wired.lt_of_driver (hw : f.Wired) (hmem : e ∈ f.entriesOf i) {n : Nat}
    (hn : e.driver = some n) :
    n < f.nextNumber :=
  (hw.handles i e.plain (List.mem_map_of_mem hmem) n hn).2.2.1

theorem exists_of_mem_entriesOf (h : e ∈ f.entriesOf i) : ∃ s, f.schedulers[i]? = some s :=
  exists_of_mem_registry (List.mem_map_of_mem h)

/-- The driver that is stopped is that of the entry, unless it is kept. -/
theorem stopped_iff (hw : f.Wired) (hmem : e ∈ f.entriesOf i) {n : Nat} {kept : Prop}
    (hnot : e.driver = some n → ¬ kept) :
    e.driver = some n ↔ ∃ e' ∈ f.entriesOf i, e'.id = e.id ∧ e'.driver = some n ∧ ¬ kept := by
  constructor
  · intro hn
    exact ⟨e, hmem, rfl, hn, hnot hn⟩
  · intro hsome
    obtain ⟨e', he', hid, hn, -⟩ := hsome
    rw [← (hw.sorted_entriesOf i).eq_of_id he' hmem hid]
    exact hn

/-- An entry that is changed in its flags only is born from itself. -/
theorem born_of_mem (hmem : e ∈ f.entriesOf i) {e' : Entry} (hid : e.id = e'.id)
    (hserial : e.serial = e'.serial) (hjob : e.job = e'.job) (htrigger : e.trigger = e'.trigger)
    (hnone : e'.driver ≠ none → e.driver = none) :
    Born f g i e' :=
  .inl ⟨e.plain, List.mem_map_of_mem hmem, hid, hserial, hjob, htrigger, hnone⟩

/-! ## One job -/

/-- A scheduler was asked for something about one job: the entry of the job is swapped, or there is
    none and nothing changes. -/
def Asked (i : Nat) (id : String) (f g : Fleet σ) : Prop := f.Alike g ∨ ∃ new, Swaps i id new f g

/-- A request about one job rewires the fleet and starts nothing else. -/
theorem Asked.rewires (hs : f.Sound) (hw : f.Wired) (h : Asked i id f g) : Rewires False i f g := by
  obtain hsame | ⟨new, hswaps⟩ := h
  · exact .of_alike hw hsame
  · exact hswaps.rewires hs hw

/-- The entries of other jobs stay. -/
theorem Asked.keeps (h : Asked i id f g) (he : e ∈ f.registry i) (hother : e.id ≠ id) :
    e ∈ g.registry i := by
  obtain hsame | ⟨new, hswaps⟩ := h
  · rw [registry_congr hsame.frames]
    exact he
  · exact hswaps.keeps he hother

/-- Pausing swaps the entry for a paused one without a driver. -/
theorem swaps_pause (hw : f.Wired) (hfound : Entry.find? id (f.entriesOf i) = some e) :
    Swaps i id (some (Entry.plain { e with paused := true, driver := none })) f
      (f.pause i id).2 := by
  unfold pause
  rw [hfound]
  obtain ⟨hmem, rfl⟩ := Entry.find?_eq_some hfound
  refine Swaps.of_entries e.id
    (Entry.change e.id (fun e => { e with paused := true, nextRun := none, driver := none }))
    (some { e with paused := true, nextRun := none, driver := none }) (fun n => e.driver = some n)
    (exists_of_mem_entriesOf hmem) ?_
      (Entry.swapped_change (hw.sorted_entriesOf i) hmem (fun _ h => h))
    (.idle rfl rfl (.inl rfl) (born_of_mem hmem rfl rfl rfl rfl (fun h => (h rfl).elim))) ?_
      ?_ ?_ ?_
  · show (f.abortDriver e).schedulers.modify i _ = _
    rw [schedulers_abortDriver]
  · exact Nat.le_of_eq (nextNumber_abortDriver e).symm
  · intro e' he'
    have he' : e' ∈ (f.abortDriver e).ends := he'
    rw [ends_abortDriver] at he'
    exact he'
  · intro n
    apply stopped_iff hw hmem
    intro _ hkept
    obtain ⟨e', ⟨⟩, ⟨⟩⟩ := hkept
  · intro n a
    show (f.abortDriver e).Does n a ↔ _
    rw [does_abortDriver]
    simp

theorem swaps_remove (hw : f.Wired) (hfound : Entry.find? id (f.entriesOf i) = some e) :
    Swaps i id none f (f.remove i id).2 := by
  unfold remove
  rw [hfound]
  obtain ⟨hmem, rfl⟩ := Entry.find?_eq_some hfound
  refine Swaps.of_entries e.id _ none (fun n => e.driver = some n) (exists_of_mem_entriesOf hmem) ?_
    (Entry.swapped_erase (hw.sorted_entriesOf i) e.id) .gone ?_ ?_ ?_ ?_
  · show (abortDriver e _).schedulers = _
    rw [schedulers_abortDriver]
    rfl
  · show f.nextNumber ≤ (abortDriver e _).nextNumber
    rw [nextNumber_abortDriver]
    exact Nat.le_refl _
  · intro e' he'
    have he' : e' ∈ (abortDriver e (f.changeEntries i (Entry.erase e.id))).ends := he'
    rw [ends_abortDriver] at he'
    exact he'
  · intro n
    apply stopped_iff hw hmem
    intro _ hkept
    obtain ⟨e', ⟨⟩, -⟩ := hkept
  · intro n a
    show (abortDriver e (f.changeEntries i (Entry.erase e.id))).Does n a ↔ _
    rw [does_abortDriver]
    simp [changeEntries]

/-- Resuming a job that gets a driver. -/
theorem swaps_resume_driven (hw : f.Wired) (hfound : Entry.find? id (f.entriesOf i) = some e)
    (hstarts : (f.isRunning i && e.driver.isNone) = true) :
    Swaps i id (some (Entry.plain { e with paused := false, driver := some f.nextNumber })) f
      (f.resume i id).2 := by
  unfold resume
  rw [hfound]
  obtain ⟨hmem, rfl⟩ := Entry.find?_eq_some hfound
  simp only [hstarts, if_true]
  obtain ⟨hruns, hnone⟩ := Bool.and_eq_true_iff.1 hstarts
  have hnone : e.driver = none := by simpa using hnone
  -- it had no driver, so none is stopped
  refine Swaps.of_entries e.id _ (some _) (fun _ => False) (exists_of_mem_entriesOf hmem) rfl
    (Entry.swapped_change (hw.sorted_entriesOf i) hmem (fun _ _ => rfl))
    (.driven rfl rfl (Nat.le_refl f.nextNumber) (Nat.lt_succ_self _) hruns rfl
      (born_of_mem hmem rfl rfl rfl rfl (fun _ => hnone))) (Nat.le_succ _) (fun _ he => he) ?_ ?_
  · intro n
    refine ⟨False.elim, ?_⟩
    intro hsome
    obtain ⟨e', he', hid, hn, -⟩ := hsome
    rw [(hw.sorted_entriesOf i).eq_of_id he' hmem hid, hnone] at hn
    cases hn
  · intro n a
    show (f.addTask _ false).Does n a ↔ _
    rw [does_addTask]
    simp only [not_false_eq_true, and_true, Option.some.injEq]
    constructor
    · intro h
      rcases h with hold | ⟨rfl, rfl⟩
      · exact .inl hold
      · exact .inr ⟨_, rfl, rfl, Nat.le_refl _, rfl⟩
    · intro h
      rcases h with hold | ⟨e', rfl, hn, -, rfl⟩
      · exact .inl hold
      · exact .inr ⟨(Option.some.inj hn).symm, rfl⟩

/-- Resuming a job that gets no driver, since it has one or its scheduler does not run. -/
theorem swaps_resume_idle (hw : f.Wired) (hfound : Entry.find? id (f.entriesOf i) = some e)
    (hstarts : ¬ (f.isRunning i && e.driver.isNone) = true) :
    Swaps i id (some (Entry.plain { e with paused := false })) f (f.resume i id).2 := by
  unfold resume
  rw [hfound]
  obtain ⟨hmem, rfl⟩ := Entry.find?_eq_some hfound
  simp only [hstarts]
  have hrenews : ∀ g, Renews f g i e.id (some (Entry.plain { e with paused := false })) := by
    intro g
    by_cases hnone : e.driver = none
    · have hidle : f.isRunning i = false := by
        simpa [hnone] using hstarts
      exact .idle rfl hnone (.inr hidle) (born_of_mem hmem rfl rfl rfl rfl (fun _ => hnone))
    · -- an entry with a driver is not paused, so nothing changes
      obtain ⟨n, hn⟩ := Option.ne_none_iff_exists'.1 hnone
      obtain ⟨-, hunpaused, -⟩ := hw.handles i e.plain (List.mem_map_of_mem hmem) n hn
      have hunpaused : e.paused = false := hunpaused
      have hsame : Entry.plain { e with paused := false } = e.plain := by
        simp only [Entry.plain, hunpaused]
      rw [hsame]
      exact .kept rfl (List.mem_map_of_mem hmem)
  refine Swaps.of_entries e.id _ (some _) (fun _ => False) (exists_of_mem_entriesOf hmem) rfl
    (Entry.swapped_change (hw.sorted_entriesOf i) hmem (fun _ _ => rfl)) (hrenews _) (Nat.le_refl _)
      (fun _ he => he) ?_ ?_
  · intro n
    refine ⟨False.elim, ?_⟩
    intro hsome
    obtain ⟨e', he', hid, hn, hnot⟩ := hsome
    rw [(hw.sorted_entriesOf i).eq_of_id he' hmem hid] at hn
    exact hnot ⟨_, rfl, hn⟩
  · intro n a
    simp only [not_false_eq_true, and_true]
    constructor
    · exact .inl
    · intro h
      rcases h with hold | ⟨e', hnew, hn, hnext, -⟩
      · exact hold
      -- a driver that the entry keeps is not new
      · cases hnew
        exact absurd (hw.lt_of_driver hmem hn) (Nat.not_lt.2 hnext)

/-- A job is not paused after it was resumed. -/
theorem swaps_resume (hw : f.Wired) (hfound : Entry.find? id (f.entriesOf i) = some e) :
    ∃ e', e'.serial = e.serial ∧ e'.paused = false ∧ Swaps i id (some e') f (f.resume i id).2 := by
  by_cases hstarts : (f.isRunning i && e.driver.isNone) = true
  · exact ⟨Entry.plain { e with paused := false, driver := some f.nextNumber }, rfl, rfl,
      swaps_resume_driven hw hfound hstarts⟩
  · exact ⟨Entry.plain { e with paused := false }, rfl, rfl, swaps_resume_idle hw hfound hstarts⟩

/-- Pausing is a request about the job, known or not. -/
theorem asked_pause (hw : f.Wired) (i : Nat) (id : String) : Asked i id f (f.pause i id).2 := by
  cases hfound : Entry.find? id (f.entriesOf i) with
  | none =>
    unfold pause
    rw [hfound]
    exact .inl (Alike.refl f)
  | some e => exact .inr ⟨_, swaps_pause hw hfound⟩

theorem asked_remove (hw : f.Wired) (i : Nat) (id : String) : Asked i id f (f.remove i id).2 := by
  cases hfound : Entry.find? id (f.entriesOf i) with
  | none =>
    unfold remove
    rw [hfound]
    exact .inl (Alike.refl f)
  | some e => exact .inr ⟨_, swaps_remove hw hfound⟩

theorem asked_resume (hw : f.Wired) (i : Nat) (id : String) : Asked i id f (f.resume i id).2 := by
  cases hfound : Entry.find? id (f.entriesOf i) with
  | none =>
    unfold resume
    rw [hfound]
    exact .inl (Alike.refl f)
  | some e =>
    obtain ⟨e', -, -, hswaps⟩ := swaps_resume hw hfound
    exact .inr ⟨_, hswaps⟩

/-- Entering a job changes the registry, and stops the driver of the entry that it replaces. -/
theorem enter_spec (f : Fleet σ) (i : Nat) (e : Entry) :
    (f.enter i e).schedulers =
      f.schedulers.modify i (fun s => { s with entries := Entry.insert e s.entries }) ∧
      (f.enter i e).ends = f.ends ∧ (f.enter i e).nextNumber = f.nextNumber ∧
      ∀ n a, (f.enter i e).Does n a ↔ f.Does n a ∧
        ¬ ∃ old, Entry.find? e.id (f.entriesOf i) = some old ∧ old.driver = some n := by
  unfold enter
  cases Entry.find? e.id (f.entriesOf i) with
  | none =>
    refine ⟨rfl, rfl, rfl, ?_⟩
    intro n a
    show f.Does n a ↔ _
    simp
  | some old =>
    refine ⟨schedulers_abortDriver old, ends_abortDriver old, nextNumber_abortDriver old, ?_⟩
    intro n a
    show (abortDriver old (f.changeEntries i (Entry.insert e))).Does n a ↔ _
    rw [does_abortDriver]
    simp [changeEntries]

/-- What makes no difference can come after a rewiring. -/
theorem Rewires.alike {started : Prop} (h : Rewires started j f g) {k : Fleet σ} (hk : g.Alike k) :
    Rewires started j f k where
  wired := h.wired.of_turned (.of_alike hk)
  others := by
    intro i hne
    obtain ⟨hregistry, hrunning, hflights, hzone⟩ := h.others i hne
    exact ⟨(registry_congr hk.frames i).trans hregistry,
      (isRunning_congr hk.frames i).trans hrunning, (hk.flights i).trans hflights,
      (zone?_congr hk.frames i).trans hzone⟩
  zone := (zone?_congr hk.frames j).trans h.zone
  flights := (hk.flights j).trans h.flights
  running := fun hruns => (isRunning_congr hk.frames j).trans (h.running hruns)
  idle := h.idle.imp_right (isRunning_congr hk.frames j).trans
  next := hk.next ▸ h.next
  ends := fun e he => h.ends e (hk.ends e he)
  origin := by
    intro n a ha
    rw [isRunning_congr hk.frames]
    exact h.origin n a ((hk.does n a).1 ha)
  stays := fun n a ha hother => (hk.does n a).2 (h.stays n a ha hother)
  persists := by
    intro i e he n hn
    rw [registry_congr hk.frames] at he
    rcases h.persists i e he n hn with ⟨hold, hkeeps⟩ | ⟨hnew, hdoes, hnone⟩
    · exact .inl ⟨hold, fun a ha => (hk.does n a).2 (hkeeps a ha)⟩
    · exact .inr ⟨hnew, (hk.does n _).2 hdoes, hnone⟩

/-- A scheduler was asked to register jobs with these identities: every entry afterwards was there,
    or has a new serial number, and those of other identities are still there. -/
structure Enters (i : Nat) (ids : List String) (f g : Fleet σ) : Prop where
  rewires : Rewires False i f g
  fresh : ∀ e ∈ g.registry i, e ∈ f.registry i ∨ f.nextNumber ≤ e.serial
  keeps : ∀ e ∈ f.registry i, e.id ∉ ids → e ∈ g.registry i

/-- Where nothing is different, nothing has been entered. -/
theorem Enters.of_alike (hw : f.Wired) (h : f.Alike g) (ids : List String) : Enters i ids f g :=
  have hsame := registry_congr h.frames i
  ⟨.of_alike hw h, fun _ he => .inl (hsame ▸ he), fun _ he _ => hsame ▸ he⟩

theorem Enters.alike {ids : List String} (h : Enters i ids f g) {k : Fleet σ} (hk : g.Alike k) :
    Enters i ids f k :=
  have hsame := registry_congr hk.frames i
  ⟨h.rewires.alike hk, fun e he => h.fresh e (hsame ▸ he),
    fun e he hother => hsame ▸ h.keeps e he hother⟩

theorem SameAt.trans {k : Fleet σ} (h : SameAt i f g) (h' : SameAt i g k) : SameAt i f k :=
  ⟨h'.registry.trans h.registry, h'.isRunning.trans h.isRunning, h'.flights.trans h.flights,
    h'.zone?.trans h.zone?⟩

/-- A driver that is new in the second step is that of an entry that is new as well, so it had none
    before the first. -/
theorem Enters.persists_trans {k : Fleet σ} {ids ids' : List String} (hw : f.Wired)
    (hfg : Enters i ids f g) (hgk : Enters i ids' g k) (j : Nat) :
    ∀ e ∈ k.registry j, ∀ n, e.driver = some n →
      (e ∈ f.registry j ∧ ∀ a, f.Does n a → k.Does n a) ∨
        (f.nextNumber ≤ n ∧ k.Does n (.drive (e.driverOf j)) ∧
          ∀ e₀ ∈ f.registry j, e₀.serial = e.serial → e₀.driver = none) := by
  intro e he n hn
  rcases hgk.rewires.persists j e he n hn with ⟨hold, hkeeps⟩ | ⟨hnew, hdoes, hnone⟩
  · rcases hfg.rewires.persists j e hold n hn with ⟨hold', hkeeps'⟩ | ⟨hnew', hdoes', hnone'⟩
    · exact .inl ⟨hold', fun a ha => hkeeps a (hkeeps' a ha)⟩
    · exact .inr ⟨hnew', hkeeps _ hdoes', hnone'⟩
  · -- an entry that was there in between had no driver then
    have hmiddle : e ∉ g.registry j := by
      intro hold
      rw [hnone e hold rfl] at hn
      cases hn
    by_cases hj : j = i
    · subst hj
      have hserial := (hgk.fresh e he).resolve_left hmiddle
      refine .inr ⟨Nat.le_trans hfg.rewires.next hnew, hdoes, ?_⟩
      intro e₀ he₀ hsame
      have := hw.below j e₀ he₀
      have := hfg.rewires.next
      omega
    · rw [(hgk.rewires.others j hj).registry] at he
      exact absurd he hmiddle

/-- Entries made in two steps are those of both. -/
theorem Enters.trans {k : Fleet σ} {ids ids' : List String} (hw : f.Wired) (hfg : Enters i ids f g)
    (hgk : Enters i ids' g k) : Enters i (ids ++ ids') f k := by
  obtain ⟨hfirst, hfresh, hkeeps⟩ := id hfg
  obtain ⟨hsecond, hfresh', hkeeps'⟩ := id hgk
  refine ⟨⟨hsecond.wired, ?_, hsecond.zone.trans hfirst.zone,
    hsecond.flights.trans hfirst.flights, ?_,
    .inr ((hsecond.idle.resolve_left id).trans (hfirst.idle.resolve_left id)),
    Nat.le_trans hfirst.next hsecond.next, ?_, ?_, ?_, hfg.persists_trans hw hgk⟩, ?_, ?_⟩
  · exact fun j hne => (hfirst.others j hne).trans (hsecond.others j hne)
  · exact fun hruns => hsecond.running (hfirst.running hruns)
  · exact fun e he => hfirst.ends e (hsecond.ends e he)
  · intro n a ha
    rcases hsecond.origin n a ha with hold | ⟨hnew, hrest⟩
    · rcases hfirst.origin n a hold with hold' | ⟨hnew', hruns, hdriver⟩
      · exact .inl hold'
      · exact .inr ⟨hnew', hsecond.running hruns, hdriver⟩
    · exact .inr ⟨Nat.le_trans hfirst.next hnew, hrest⟩
  · exact fun n a ha hother => hsecond.stays n a (hfirst.stays n a ha hother) hother
  · intro e he
    rcases hfresh' e he with hold | hnew
    · exact hfresh e hold
    · exact .inr (Nat.le_trans hfirst.next hnew)
  · intro e he hother
    obtain ⟨hother, hother'⟩ := not_or.1 (mt List.mem_append.2 hother)
    exact hkeeps' e (hkeeps e he hother) hother'

/-- A new entry has been made, and its driver has been started if it has one. -/
structure Prepares (i : Nat) (entry : Entry) (f g : Fleet σ) : Prop where
  schedulers : g.schedulers = f.schedulers
  ends : g.ends = f.ends
  next : f.nextNumber ≤ g.nextNumber
  serial : f.nextNumber ≤ entry.serial
  new : ∀ n, entry.driver = some n → f.nextNumber ≤ n
  does : ∀ n a, g.Does n a ↔ f.Does n a ∨ (entry.driver = some n ∧ a = .drive (entry.driverOf i))

/-- Entering a job stops the driver of the entry that it replaces, and no other. -/
theorem replaced_iff (hw : f.Wired) {entry : Entry}
    (hnew : ∀ n, entry.driver = some n → f.nextNumber ≤ n) (n : Nat) :
    (∃ old, Entry.find? entry.id (f.entriesOf i) = some old ∧ old.driver = some n) ↔
      ∃ e ∈ f.entriesOf i, e.id = entry.id ∧ e.driver = some n ∧ ¬ ∃ e', some entry = some e' ∧
      e'.driver = some n := by
  constructor
  · intro hstopped
    obtain ⟨old, hfound, hn⟩ := hstopped
    obtain ⟨hmem, hid⟩ := Entry.find?_eq_some hfound
    refine ⟨old, hmem, hid, hn, ?_⟩
    -- the driver of the new entry is not an old one
    intro hkept
    obtain ⟨e', ⟨⟩, hn'⟩ := hkept
    exact absurd (hw.lt_of_driver hmem hn) (Nat.not_lt.2 (hnew n hn'))
  · intro hsome
    obtain ⟨old, hmem, hid, hn, -⟩ := hsome
    cases hfound : Entry.find? entry.id (f.entriesOf i) with
    | none => exact absurd hid (Entry.find?_eq_none hfound old hmem)
    | some found =>
      obtain ⟨hmem', hid'⟩ := Entry.find?_eq_some hfound
      rw [(hw.sorted_entriesOf i).eq_of_id hmem hmem' (hid.trans hid'.symm)] at hn
      exact ⟨found, rfl, hn⟩

/-- A new entry takes the place of the one with its identity. -/
theorem swaps_enter (hw : f.Wired) {entry : Entry} (hexists : ∃ s, f.schedulers[i]? = some s)
    (hprepares : Prepares i entry f g)
    (hrenews : Renews f (g.enter i entry) i entry.id (some entry.plain)) :
    Swaps i entry.id (some entry.plain) f (g.enter i entry) := by
  obtain ⟨hschedulers, hends, hnext, hdoes⟩ := enter_spec g i entry
  have hentries : g.entriesOf i = f.entriesOf i := by
    unfold entriesOf
    rw [hprepares.schedulers]
  refine Swaps.of_entries entry.id (Entry.insert entry) (some entry)
    (fun n => ∃ old, Entry.find? entry.id (f.entriesOf i) = some old ∧ old.driver = some n) hexists
    (hprepares.schedulers ▸ hschedulers)
      (Entry.swapped_insert (hw.sorted_entriesOf i) entry) hrenews
    (hnext ▸ hprepares.next) ?_ (replaced_iff hw hprepares.new) ?_
  · intro e he
    rw [hends, hprepares.ends] at he
    exact he
  · intro n a
    rw [hdoes, hentries, hprepares.does]
    constructor
    · intro h
      rcases h with ⟨hbefore | ⟨hn, ha⟩, hnot⟩
      · exact .inl ⟨hbefore, hnot⟩
      · exact .inr ⟨entry, rfl, hn, hprepares.new n hn, ha⟩
    · intro h
      rcases h with ⟨hbefore, hnot⟩ | ⟨e', ⟨⟩, hn, hnew, ha⟩
      · exact ⟨.inl hbefore, hnot⟩
      · refine ⟨.inr ⟨hn, ha⟩, ?_⟩
        intro hstopped
        obtain ⟨old, hfound, hn'⟩ := hstopped
        exact absurd (hw.lt_of_driver (Entry.find?_eq_some hfound).1 hn') (Nat.not_lt.2 hnew)

/-- A new entry is entered. -/
theorem enters_enter (hs : f.Sound) (hw : f.Wired) {entry : Entry}
    (hexists : ∃ s, f.schedulers[i]? = some s) (hprepares : Prepares i entry f g)
    (hrenews : Renews f (g.enter i entry) i entry.id (some entry.plain)) (hid : entry.id = id) :
    Enters i [id] f (g.enter i entry) := by
  have hswaps := swaps_enter hw hexists hprepares hrenews
  refine ⟨hswaps.rewires hs hw, ?_, ?_⟩
  · intro e he
    rcases hswaps.mem_registry he with ⟨hold, -⟩ | hnew
    · exact .inl hold
    · cases hnew
      exact .inr hprepares.serial
  · exact fun e he hother =>
      hswaps.keeps he (fun hsame => hother (List.mem_singleton.2 (hsame.trans hid)))

/-- Registering a job enters its identity at most. -/
theorem enters_register (hs : f.Sound) (hw : f.Wired) (i : Nat) (job : Job) :
    Enters i [job.id] f (f.register i job).2 := by
  unfold register
  cases hsched : f.schedulers[i]? with
  | none => exact .of_alike hw (Alike.refl f) _
  | some s =>
    simp only
    split
    · exact .of_alike hw (alike_changeWorld _) _
    · cases htrigger : job.definition.trigger s.config.zone with
      | error e => exact .of_alike hw (Alike.refl f) _
      | ok trigger =>
        have hzone : f.zone? i = some s.config.zone := zone?_of_getElem? hsched
        have hrunning : f.isRunning i = s.running := isRunning_of_getElem? hsched
        simp only
        refine Enters.alike (Enters.alike ?_ (alike_changeWorld _)) (alike_changeWorld _)
        cases hruns : s.running with
        | true =>
          -- the serial number and that of the driver are the next two numbers
          have hnext : f.nextNumber < f.nextNumber + 1 + 1 := Nat.lt_succ_of_lt (Nat.lt_succ_self _)
          refine enters_enter hs hw ⟨s, hsched⟩ ⟨rfl, rfl, Nat.le_of_lt hnext,
            Nat.le_refl _, ?_, ?_⟩ ?_ rfl
          · intro n hn
            cases hn
            exact Nat.le_succ _
          · intro n a
            simp only [freshEntry, startDriver, if_true, does_addTask, Option.some.injEq]
            rw [eq_comm (a := n)]
            rfl
          · refine .driven rfl rfl (Nat.le_succ f.nextNumber) ?_ (hrunning.trans hruns) rfl
              (.inr ⟨Nat.le_refl _, ?_, _, hzone, htrigger⟩)
            · rw [(enter_spec _ _ _).2.2.1]
              exact Nat.lt_succ_self _
            · rw [(enter_spec _ _ _).2.2.1]
              exact hnext
        | false =>
          refine enters_enter hs hw ⟨s, hsched⟩ ⟨rfl, rfl, Nat.le_succ _,
            Nat.le_refl _, ?_, ?_⟩ ?_ rfl
          · intro n hn
            cases hn
          · intro n a
            show f.Does n a ↔ _
            simp [freshEntry]
          · refine .idle rfl rfl (.inr (hrunning.trans hruns))
              (.inr ⟨Nat.le_refl _, ?_, _, hzone, htrigger⟩)
            rw [(enter_spec _ _ _).2.2.1]
            exact Nat.lt_succ_self _

/-- Registering several jobs enters their identities at most. -/
theorem enters_registerAll (hs : f.Sound) (hw : f.Wired) (i : Nat) (jobs : List Job) :
    Enters i (jobs.map (·.id)) f (f.registerAll i jobs).2 := by
  induction jobs generalizing f with
  | nil => exact .of_alike hw (Alike.refl f) _
  | cons job rest ih =>
    have hregister := enters_register hs hw i job
    have hsound := (calm_register hs i job).sound
    unfold registerAll
    rcases hanswer : f.register i job with ⟨answer, g⟩
    rw [hanswer] at hregister hsound
    cases answer with
    | ok registered => exact hregister.trans hw (ih hsound hregister.rewires.wired)
    | error e =>
      have hlog := hregister.alike (alike_changeWorld (·.emit .error "Failed to register job"
        [("job_id", .str job.id), ("error", .str e.message)]))
      exact hlog.trans hw (ih (calm_emit hsound _ _ _).sound hlog.rewires.wired)

/-! ## All jobs -/

/-- An entry after its scheduler has given it a driver, unless it is paused. -/
def GivenDriver (i : Nat) (f g : Fleet σ) (e e' : Entry) : Prop :=
  (e.paused = true ∧ e' = e) ∨
    (e.paused = false ∧ ∃ n, e' = { e with driver := some n } ∧ f.nextNumber ≤ n ∧
      n < g.nextNumber ∧
      g.Does n (.drive (e.driverOf i)))

/-- The entries of a scheduler have been given drivers. -/
structure StartsDrivers (i : Nat) (entries entries' : List Entry) (f g : Fleet σ) : Prop where
  schedulers : g.schedulers = f.schedulers
  ends : g.ends = f.ends
  next : f.nextNumber ≤ g.nextNumber
  ids : entries'.map Entry.id = entries.map Entry.id
  given : ∀ e' ∈ entries', ∃ e ∈ entries, GivenDriver i f g e e'
  keeps : ∀ n a, f.Does n a → g.Does n a
  origin : ∀ n a, g.Does n a → f.Does n a ∨
    (f.nextNumber ≤ n ∧ ∃ e' ∈ entries', e'.driver = some n ∧ a = .drive (e'.driverOf i))

/-- Giving drivers to entries does no more than that. -/
theorem startsDrivers_startDrivers (i : Nat) (entries : List Entry) (f : Fleet σ) :
    StartsDrivers i entries (f.startDrivers i entries).1 f (f.startDrivers i entries).2 := by
  induction entries generalizing f with
  | nil =>
    refine ⟨rfl, rfl, Nat.le_refl _, rfl, ?_, fun _ _ ha => ha, fun _ _ ha => .inl ha⟩
    intro e he
    cases he
  | cons e rest ih =>
    rcases hfirst : (if e.paused then (e, f) else f.startDriver i e) with ⟨e', g⟩
    rw [startDrivers_cons f i e rest hfirst]
    have hrest := ih g
    -- what the first entry adds, before the others are given theirs
    have hone : g.schedulers = f.schedulers ∧ g.ends = f.ends ∧
      f.nextNumber ≤ g.nextNumber ∧ e'.id = e.id ∧
        GivenDriver i f g e e' ∧ (∀ n a, f.Does n a → g.Does n a) ∧
        ∀ n a, g.Does n a → f.Does n a ∨
          (f.nextNumber ≤ n ∧ e'.driver = some n ∧ a = .drive (e'.driverOf i)) := by
      by_cases hpaused : e.paused = true
      · rw [if_pos hpaused] at hfirst
        cases hfirst
        exact ⟨rfl, rfl, Nat.le_refl _, rfl, .inl ⟨hpaused, rfl⟩, fun _ _ ha => ha,
          fun _ _ ha => .inl ha⟩
      · rw [if_neg hpaused] at hfirst
        cases hfirst
        refine ⟨rfl, rfl, Nat.le_succ _, rfl,
          .inr ⟨by simpa using hpaused, f.nextNumber, rfl, Nat.le_refl _, Nat.lt_succ_self _,
            (does_addTask false).2 (.inr ⟨rfl, rfl⟩)⟩, ?_, ?_⟩
        · exact fun n a ha => (does_addTask false).2 (.inl ha)
        · intro n a ha
          rcases (does_addTask false).1 ha with hold | ⟨rfl, rfl⟩
          · exact .inl hold
          · exact .inr ⟨Nat.le_refl _, rfl, rfl⟩
    obtain ⟨hschedulers, hends, hnext, hid, hgiven, hkeeps, horigin⟩ := hone
    refine ⟨hrest.schedulers.trans hschedulers, hrest.ends.trans hends,
      Nat.le_trans hnext hrest.next, ?_, ?_, ?_, ?_⟩
    · rw [List.map_cons, List.map_cons, hid, hrest.ids]
    · intro e₁ he₁
      rcases List.mem_cons.1 he₁ with rfl | hmem
      · refine ⟨e, List.mem_cons_self, ?_⟩
        rcases hgiven with hpaused | ⟨hunpaused, n, heq, hnew, hlt, hdoes⟩
        · exact .inl hpaused
        · exact .inr ⟨hunpaused, n, heq, hnew, Nat.lt_of_lt_of_le hlt hrest.next,
            hrest.keeps n _ hdoes⟩
      · obtain ⟨e₀, he₀, hgiven₀⟩ := hrest.given e₁ hmem
        refine ⟨e₀, List.mem_cons_of_mem _ he₀, ?_⟩
        rcases hgiven₀ with hpaused | ⟨hunpaused, n, heq, hnew, hlt, hdoes⟩
        · exact .inl hpaused
        · exact .inr ⟨hunpaused, n, heq, Nat.le_trans hnext hnew, hlt, hdoes⟩
    · exact fun n a ha => hrest.keeps n a (hkeeps n a ha)
    · intro n a ha
      rcases hrest.origin n a ha with hmiddle | ⟨hnew, e₁, he₁, hdriver⟩
      · rcases horigin n a hmiddle with hold | ⟨hnew, hdriver⟩
        · exact .inl hold
        · exact .inr ⟨hnew, e', List.mem_cons_self, hdriver⟩
      · exact .inr ⟨Nat.le_trans hnext hnew, e₁, List.mem_cons_of_mem _ he₁, hdriver⟩

/-- A scheduler that did not run has been started. -/
structure Starts (i : Nat) (f g : Fleet σ) : Prop where
  idle : f.isRunning i = false
  runs : g.isRunning i = true
  others : ∀ j, j ≠ i → SameAt j f g
  zone : g.zone? i = f.zone? i
  flights : g.flights i = f.flights i
  next : f.nextNumber ≤ g.nextNumber
  ends : g.ends = f.ends
  sorted : Entry.Sorted (g.registry i)
  /-- An entry is what it was, paused and without driver, or not paused and with a new driver. -/
  given : ∀ e ∈ g.registry i, ∃ e₀ ∈ f.registry i, GivenDriver i f g e₀ e
  keeps : ∀ n a, f.Does n a → g.Does n a
  origin : ∀ n a, g.Does n a → f.Does n a ∨
    (f.nextNumber ≤ n ∧ ∃ e ∈ g.registry i, e.driver = some n ∧ a = .drive (e.driverOf i))

/-- The fleet in which a scheduler runs with these entries. -/
def opened (i : Nat) (entries : List Entry) (f : Fleet σ) : Fleet σ :=
  (f.changeScheduler i (fun s => { s with running := true, entries := entries })).changeWorld
    (·.emit .info "Scheduler started" [("job_count", .ofNat entries.length)])

/-- A scheduler that does not run is started by giving drivers to its entries. -/
theorem start_of_idle (hidle : f.isRunning i = false) :
    f.start i = (f.startDrivers i (f.entriesOf i)).2.opened i
      (f.startDrivers i (f.entriesOf i)).1 := by
  unfold start
  rw [if_neg (by simp [hidle])]
  rfl

/-- Nothing is started in a scheduler that does not exist. -/
theorem alike_start_of_none (hnone : f.schedulers[i]? = none) : f.Alike (f.start i) := by
  have hidle : f.isRunning i = false := by
    unfold isRunning
    rw [hnone]
    rfl
  have hentries : f.entriesOf i = [] := by
    unfold entriesOf
    rw [hnone]
    rfl
  have hframes : (f.opened i []).frames = f.frames := by
    show (f.schedulers.modify i _).map Scheduler.frame = _
    rw [List.modify_eq_self (List.getElem?_eq_none_iff.1 hnone)]
    rfl
  have hflights : ∀ j, (f.opened i []).flights j = f.flights j := by
    intro j
    show ((((f.schedulers.modify i _)[j]?).map (·.inFlight)).getD []) = _
    rw [List.modify_eq_self (List.getElem?_eq_none_iff.1 hnone)]
    rfl
  rw [start_of_idle hidle, hentries]
  exact ⟨fun _ _ => Iff.rfl, hframes, hflights, rfl, fun _ he => he⟩

/-- Entries that were given drivers are in the order in which they were. -/
theorem StartsDrivers.sorted {entries entries' : List Entry}
    (h : StartsDrivers i entries entries' f g) (hsorted : Entry.Sorted entries) :
    Entry.Sorted entries' := by
  unfold Entry.Sorted at hsorted ⊢
  rw [← List.pairwise_map (f := Entry.id) (R := (· < ·))] at hsorted ⊢
  rw [h.ids]
  exact hsorted

/-- Starting a scheduler that does not run is `Starts`. -/
theorem starts_start (hw : f.Wired) (hidle : f.isRunning i = false) {s : Scheduler}
    (hsched : f.schedulers[i]? = some s) :
    Starts i f (f.start i) := by
  have hdrivers := startsDrivers_startDrivers i (f.entriesOf i) f
  rw [start_of_idle hidle]
  generalize (f.startDrivers i (f.entriesOf i)).1 = entries at hdrivers ⊢
  generalize (f.startDrivers i (f.entriesOf i)).2 = k at hdrivers ⊢
  have hschedulers : (k.opened i entries).schedulers =
      f.schedulers.modify i (fun s => { s with running := true, entries := entries }) := by
    rw [← hdrivers.schedulers]
    rfl
  have hself := getElem?_of_modify hschedulers
  rw [hsched] at hself
  -- the registry holds just the entries that were given drivers
  have hregistry : (k.opened i entries).registry i = entries.map Entry.plain := by
    unfold registry
    rw [entriesOf_of_getElem? hself]
  refine ⟨hidle, isRunning_of_getElem? hself, fun j hne => sameAt_of_modify hschedulers hne, ?_,
    ?_, hdrivers.next, hdrivers.ends, ?_, ?_, hdrivers.keeps, ?_⟩
  · rw [zone?_of_getElem? hself, zone?_of_getElem? hsched]
  · rw [flights_of_getElem? hself, flights_of_getElem? hsched]
  · rw [hregistry, Entry.sorted_map_plain]
    exact hdrivers.sorted (hw.sorted_entriesOf i)
  · intro e he
    rw [hregistry] at he
    obtain ⟨e₁, he₁, rfl⟩ := Entry.mem_map_plain.1 he
    obtain ⟨e₀, he₀, hgiven⟩ := hdrivers.given e₁ he₁
    refine ⟨e₀.plain, List.mem_map_of_mem he₀, ?_⟩
    rcases hgiven with ⟨hpaused, rfl⟩ | ⟨hunpaused, n, rfl, hnew, hlt, hdriver⟩
    · exact .inl ⟨hpaused, rfl⟩
    · exact .inr ⟨hunpaused, n, rfl, hnew, hlt, hdriver⟩
  · intro n a ha
    rcases hdrivers.origin n a ha with hold | ⟨hnew, e, he, hdriver⟩
    · exact .inl hold
    · rw [hregistry]
      exact .inr ⟨hnew, e.plain, List.mem_map_of_mem he, hdriver⟩

namespace Starts

/-- No entry of a scheduler that does not run has a driver. -/
theorem driver_none (hw : f.Wired) (h : Starts i f g) {e₀ : Entry} (he₀ : e₀ ∈ f.registry i) :
    e₀.driver = none := by
  cases hdriver : e₀.driver with
  | none => rfl
  | some n =>
    obtain ⟨hruns, -⟩ := hw.handles i e₀ he₀ n hdriver
    rw [h.idle] at hruns
    cases hruns

/-- What an entry and the one that it was have in common. -/
theorem origin_entry (h : Starts i f g) {e : Entry} (he : e ∈ g.registry i) :
    ∃ e₀ ∈ f.registry i, e₀.id = e.id ∧
    e₀.serial = e.serial ∧ e₀.job = e.job ∧ e₀.trigger = e.trigger := by
  obtain ⟨e₀, he₀, ⟨-, rfl⟩ | ⟨-, n, rfl, -⟩⟩ := h.given e he
  · exact ⟨e, he₀, rfl, rfl, rfl, rfl⟩
  · exact ⟨e₀, he₀, rfl, rfl, rfl, rfl⟩

/-- A driver of an entry is the one that it has just been given. -/
theorem driver_new (hw : f.Wired) (h : Starts i f g) {e : Entry} (he : e ∈ g.registry i) {n : Nat}
    (hn : e.driver = some n) :
    e.paused = false ∧ f.nextNumber ≤ n ∧ n < g.nextNumber ∧ g.Does n (.drive (e.driverOf i)) := by
  obtain ⟨e₀, he₀, ⟨-, rfl⟩ | ⟨hunpaused, k, rfl, hnew, hlt, hdoes⟩⟩ := h.given e he
  · rw [h.driver_none hw he₀] at hn
    cases hn
  · cases hn
    exact ⟨hunpaused, hnew, hlt, hdoes⟩

/-- Serial numbers are unique in the registry of a scheduler that was started. -/
theorem serials (hw : f.Wired) (h : Starts i f g) :
    ∀ e ∈ g.registry i, ∀ e' ∈ g.registry i, e.serial = e'.serial → e = e' := by
  intro e he e' he' hserial
  obtain ⟨e₀, he₀, hid, hserial₀, -⟩ := h.origin_entry he
  obtain ⟨e₁, he₁, hid', hserial₁, -⟩ := h.origin_entry he'
  have hsame := hw.serials i e₀ he₀ e₁ he₁ (by rw [hserial₀, hserial₁, hserial])
  refine h.sorted.eq_of_id he he' ?_
  rw [← hid, ← hid', hsame]

/-- The entries of a scheduler that was started name drivers that are theirs. -/
theorem handles (hs : g.Sound) (hw : f.Wired) (h : Starts i f g) (j : Nat) :
    ∀ e ∈ g.registry j, ∀ n, e.driver = some n → g.isRunning j = true ∧ e.paused = false ∧
      n < g.nextNumber ∧ ∀ a, g.Does n a → ∃ awaited, a =
        .drive { e.driverOf j with awaited := awaited } := by
  intro e he n hn
  by_cases hj : j = i
  · subst hj
    obtain ⟨hunpaused, -, hlt, hdoes⟩ := h.driver_new hw he hn
    exact ⟨h.runs, hunpaused, hlt, fun a ha => ⟨none, hs.does_unique ha hdoes⟩⟩
  · rw [(h.others j hj).registry] at he
    rw [(h.others j hj).isRunning]
    obtain ⟨hruns, hunpaused, hlt, hdoes⟩ := hw.handles j e he n hn
    refine ⟨hruns, hunpaused, Nat.lt_of_lt_of_le hlt h.next, ?_⟩
    intro a ha
    rcases h.origin n a ha with hold | ⟨hnew, -⟩
    · exact hdoes a hold
    · omega

/-- Every driver that was not told to stop is named by an entry after a start. -/
theorem named (hw : f.Wired) (h : Starts i f g) {n : Nat} {d : Driver} (hd : g.Does n (.drive d))
    (hgoes : d.stopping = false) : ∃ e ∈ g.registry d.scheduler, e.driver = some n := by
  rcases h.origin n _ hd with hold | ⟨-, e, he, hn, hactivity⟩
  · obtain ⟨e, he, hn⟩ := hw.named n d hold hgoes
    have hj : d.scheduler ≠ i := by
      intro heq
      rw [heq] at he
      rw [h.driver_none hw he] at hn
      cases hn
    rw [(h.others _ hj).registry]
    exact ⟨e, he, hn⟩
  · injection hactivity with heq
    subst heq
    exact ⟨e, he, hn⟩

/-- A fleet stays wired when a scheduler is started. -/
theorem wired (hs : g.Sound) (hw : f.Wired) (h : Starts i f g) : g.Wired where
  sorted := by
    intro j
    by_cases hj : j = i
    · subst hj
      exact h.sorted
    · rw [(h.others j hj).registry]
      exact hw.sorted j
  serials := by
    intro j
    by_cases hj : j = i
    · subst hj
      exact h.serials hw
    · rw [(h.others j hj).registry]
      exact hw.serials j
  below := by
    intro j e he
    by_cases hj : j = i
    · subst hj
      -- an entry is an old one with another driver at most
      obtain ⟨e₀, he₀, -, hserial, -⟩ := h.origin_entry he
      rw [← hserial]
      exact Nat.lt_of_lt_of_le (hw.below j e₀ he₀) h.next
    · rw [(h.others j hj).registry] at he
      exact Nat.lt_of_lt_of_le (hw.below j e he) h.next
  declared := by
    intro j e he
    by_cases hj : j = i
    · subst hj
      obtain ⟨e₀, he₀, -, -, hjob, htrigger⟩ := h.origin_entry he
      rw [h.zone, ← hjob, ← htrigger]
      exact hw.declared j e₀ he₀
    · rw [(h.others j hj).registry] at he
      rw [(h.others j hj).zone?]
      exact hw.declared j e he
  handles := h.handles hs hw
  driven := by
    intro j hruns e he hunpaused
    by_cases hj : j = i
    · subst hj
      -- a start gives a driver to all that are not paused
      obtain ⟨e₀, -, ⟨hpaused, rfl⟩ | ⟨-, n, rfl, -⟩⟩ := h.given e he
      · rw [hunpaused] at hpaused
        cases hpaused
      · exact ⟨n, rfl⟩
    · rw [(h.others j hj).registry] at he
      rw [(h.others j hj).isRunning] at hruns
      exact hw.driven j hruns e he hunpaused
  named := fun _ _ hd hgoes => h.named hw hd hgoes
  awaited := by
    intro n d hd hstops
    rcases h.origin n _ hd with hold | ⟨-, e, -, -, hactivity⟩
    · obtain ⟨m, drain, drivers, hdrain, hrest⟩ := hw.awaited n d hold hstops
      exact ⟨m, drain, drivers, h.keeps m _ hdrain, hrest⟩
    · -- the new drivers have not been told to stop
      injection hactivity with heq
      subst heq
      cases hstops
  buried := by
    intro e he
    rw [h.ends] at he
    obtain ⟨hlt, hgone⟩ := hw.buried e he
    refine ⟨Nat.lt_of_lt_of_le hlt h.next, ?_⟩
    intro a ha
    rcases h.origin e.1 a ha with hold | ⟨hnew, -⟩
    · exact hgone a hold
    · omega

theorem rewires (hs : g.Sound) (hw : f.Wired) (h : Starts i f g) : Rewires True i f g where
  wired := h.wired hs hw
  others := h.others
  zone := h.zone
  flights := h.flights
  running := by
    intro hruns
    rw [h.idle] at hruns
    cases hruns
  idle := .inl trivial
  next := h.next
  ends := fun e he => h.ends ▸ he
  origin := by
    intro n a ha
    rcases h.origin n a ha with hold | ⟨hnew, e, -, -, hactivity⟩
    · exact .inl hold
    · exact .inr ⟨hnew, h.runs, e, hactivity⟩
  stays := fun n a ha _ => h.keeps n a ha
  persists := by
    intro j e he n hn
    by_cases hj : j = i
    · subst hj
      obtain ⟨-, hnew, -, hdoes⟩ := h.driver_new hw he hn
      exact .inr ⟨hnew, hdoes, fun e₀ he₀ _ => h.driver_none hw he₀⟩
    · rw [(h.others j hj).registry] at he
      exact .inl ⟨he, fun a ha => h.keeps n a ha⟩

end Starts

/-- Starting a scheduler that runs already changes nothing. -/
theorem rewires_start (hs : f.Sound) (hw : f.Wired) (i : Nat) : Rewires True i f (f.start i) := by
  by_cases hruns : f.isRunning i = true
  · unfold start
    rw [if_pos hruns]
    exact .of_alike hw (alike_changeWorld _)
  · cases hsched : f.schedulers[i]? with
    | none => exact .of_alike hw (alike_start_of_none hsched)
    | some s =>
      exact (starts_start hw (by simpa using hruns) hsched).rewires (calm_start hs i).sound hw

end Fleet

end JobFleet
