/-
  JobFleet.Proofs.Fleet.Swaps: the entry of one identity is swapped, and its driver with it.

  Whatever a scheduler is asked to do about one job has this shape: the identity has another entry
  afterwards or none, its old driver is stopped unless the entry keeps it, and a new one may be
  started.  `Swaps` says so, and `Rewires` is what follows for the whole fleet: it stays wired, no
  other task is touched, and an entry that has a driver afterwards either had it before and is as it
  was, or has just been given a new one.

  Main results:
    * `Swaps.of_entries` — a change of a registry that is a swap, with the tasks that go with it, is
      a swap of the fleet.
    * `Swaps.rewires` — a swap rewires the fleet.
-/
import JobFleet.Proofs.Fleet.Wiring

namespace JobFleet

open JobFleet.Schedule

namespace Fleet

variable {σ : Type} {f g : Fleet σ} {i j : Nat} {id : String} {e : Entry}

/-! ## Rewiring -/

/-- A scheduler was asked for something about its jobs, or was started. -/
structure Rewires (started : Prop) (j : Nat) (f g : Fleet σ) : Prop where
  wired : g.Wired
  others : ∀ i, i ≠ j → SameAt i f g
  zone : g.zone? j = f.zone? j
  flights : g.flights j = f.flights j
  running : f.isRunning j = true → g.isRunning j = true
  idle : started ∨ g.isRunning j = f.isRunning j
  next : f.nextNumber ≤ g.nextNumber
  ends : ∀ e ∈ g.ends, e ∈ f.ends
  /-- What is new is a driver of the scheduler that has not begun, and there is none unless the
      scheduler runs. -/
  origin : ∀ n a, g.Does n a → f.Does n a ∨
    (f.nextNumber ≤ n ∧ g.isRunning j = true ∧ ∃ e : Entry, a = .drive (e.driverOf j))
  /-- Only drivers of the scheduler are stopped. -/
  stays : ∀ n a, f.Does n a → (∀ d, a = .drive d → d.scheduler ≠ j) → g.Does n a
  /-- A driver of an entry is left alone with its entry, or is a new one of an entry that had
      none. -/
  persists : ∀ i, ∀ e ∈ g.registry i, ∀ n, e.driver = some n →
    (e ∈ f.registry i ∧ ∀ a, f.Does n a → g.Does n a) ∨
      (f.nextNumber ≤ n ∧ g.Does n (.drive (e.driverOf i)) ∧
        ∀ e₀ ∈ f.registry i, e₀.serial = e.serial → e₀.driver = none)

/-- Where nothing is different, nothing was rewired. -/
theorem Rewires.of_alike {started : Prop} (hw : f.Wired) (h : f.Alike g) :
    Rewires started j f g where
  wired := hw.of_turned (.of_alike h)
  others := fun i _ => ⟨registry_congr h.frames i, isRunning_congr h.frames i, h.flights i,
    zone?_congr h.frames i⟩
  zone := zone?_congr h.frames j
  flights := h.flights j
  running := fun hruns => (isRunning_congr h.frames j).trans hruns
  idle := .inr (isRunning_congr h.frames j)
  next := Nat.le_of_eq h.next.symm
  ends := h.ends
  origin := fun n a ha => .inl ((h.does n a).1 ha)
  stays := fun n a ha _ => (h.does n a).2 ha
  persists := by
    intro i e he n _
    rw [registry_congr h.frames] at he
    exact .inl ⟨he, fun a ha => (h.does n a).2 ha⟩

/-- How the scheduler came to run can be told in another way. -/
theorem Rewires.weaken {started started' : Prop} (h : Rewires started j f g)
    (himp : started → started') :
    Rewires started' j f g where
  wired := h.wired
  others := h.others
  zone := h.zone
  flights := h.flights
  running := h.running
  idle := h.idle.imp_left himp
  next := h.next
  ends := h.ends
  origin := h.origin
  stays := h.stays
  persists := h.persists

/-! ## Swaps -/

/-- The serial number and the declaration of an entry are those of an entry that was there, without
    driver if this one has one, or they are new. -/
def Born (f g : Fleet σ) (j : Nat) (e : Entry) : Prop :=
  (∃ e₀ ∈ f.registry j, e₀.id = e.id ∧ e₀.serial = e.serial ∧ e₀.job = e.job ∧
    e₀.trigger = e.trigger ∧
      (e.driver ≠ none → e₀.driver = none)) ∨
    (f.nextNumber ≤ e.serial ∧ e.serial < g.nextNumber ∧
      ∃ zone, f.zone? j = some zone ∧ e.job.definition.trigger zone = .ok e.trigger)

/-- What becomes of the entry of an identity. -/
inductive Renews (f g : Fleet σ) (j : Nat) (id : String) : Option Entry → Prop
  | gone : Renews f g j id none
  /-- It has no driver, since it may not fire. -/
  | idle {e : Entry} (hid : e.id = id) (hdriver : e.driver = none)
    (hidle : e.paused = true ∨ f.isRunning j = false)
      (hborn : Born f g j e) : Renews f g j id (some e)
  /-- It is as it was. -/
  | kept {e : Entry} (hid : e.id = id) (hold : e ∈ f.registry j) : Renews f g j id (some e)
  /-- It has a new driver. -/
  | driven {e : Entry} {n : Nat} (hid : e.id = id) (hdriver : e.driver = some n)
    (hnew : f.nextNumber ≤ n)
      (hbelow : n < g.nextNumber) (hruns : f.isRunning j = true) (hunpaused : e.paused = false)
      (hborn : Born f g j e) :
      Renews f g j id (some e)

/-- The entry of an identity is swapped: its old driver is stopped unless it is kept, and its new
    one has been started. -/
structure Swaps (j : Nat) (id : String) (new : Option Entry) (f g : Fleet σ) : Prop where
  schedulers : ∃ change : List Entry → List Entry,
    g.schedulers = f.schedulers.modify j (fun s => { s with entries := change s.entries })
  swapped : Entry.Swapped id new (f.registry j) (g.registry j)
  renews : Renews f g j id new
  next : f.nextNumber ≤ g.nextNumber
  ends : ∀ e ∈ g.ends, e ∈ f.ends
  does : ∀ n a, g.Does n a ↔
    (f.Does n a ∧ ∀ e ∈ f.registry j, e.id = id → e.driver = some n → ∃ e', new = some e' ∧
      e'.driver = some n) ∨
      ∃ e, new = some e ∧ e.driver = some n ∧ f.nextNumber ≤ n ∧ a = .drive (e.driverOf j)

namespace Swaps

variable {new : Option Entry}

theorem others (h : Swaps j id new f g) {i : Nat} (hne : i ≠ j) : SameAt i f g := by
  obtain ⟨change, hschedulers⟩ := h.schedulers
  exact sameAt_of_modify hschedulers hne

/-- A swap does not start or stop the scheduler. -/
theorem same (h : Swaps j id new f g) :
    g.isRunning j = f.isRunning j ∧ g.flights j = f.flights j ∧ g.zone? j = f.zone? j := by
  obtain ⟨change, hschedulers⟩ := h.schedulers
  have hself := getElem?_of_modify hschedulers
  unfold isRunning flights zone?
  rw [hself]
  cases f.schedulers[j]? <;> exact ⟨rfl, rfl, rfl⟩

/-- The entries of other identities stay. -/
theorem keeps (h : Swaps j id new f g) (he : e ∈ f.registry j) (hother : e.id ≠ id) :
    e ∈ g.registry j :=
  (h.swapped.2 e).2 (.inl ⟨he, hother⟩)

/-- Only drivers of the scheduler are stopped. -/
theorem stays (hw : f.Wired) (h : Swaps j id new f g) {n : Nat} {a : Activity} (ha : f.Does n a)
    (hother : ∀ d, a = .drive d → d.scheduler ≠ j) : g.Does n a := by
  refine (h.does n a).2 (.inl ⟨ha, ?_⟩)
  intro e he _ hn
  obtain ⟨-, -, -, hdoes⟩ := hw.handles j e he n hn
  obtain ⟨awaited, hactivity⟩ := hdoes a ha
  exact absurd rfl (hother _ hactivity)

/-- The new entry comes from one that was there or has a new serial number. -/
theorem serial_eq (hw : f.Wired) (h : Swaps j id new f g) {e e₀ : Entry} (hnew : new = some e)
    (he₀ : e₀ ∈ f.registry j) (hserial : e₀.serial = e.serial) : e₀.id = e.id := by
  have hborn : Born f g j e → e₀.id = e.id := by
    intro hborn
    rcases hborn with ⟨e₁, he₁, hid, hserial₁, -⟩ | ⟨hnext, -⟩
    · rw [hw.serials j e₀ he₀ e₁ he₁ (hserial.trans hserial₁.symm)]
      exact hid
    · have := hw.below j e₀ he₀
      omega
  subst hnew
  cases h.renews with
  | idle _ _ _ hb => exact hborn hb
  | kept hid hold => rw [hw.serials j e₀ he₀ e hold hserial]
  | driven _ _ _ _ _ _ hb => exact hborn hb

/-- The new entry of an identity has that identity. -/
theorem id_eq (h : Swaps j id new f g) {e : Entry} (hnew : new = some e) : e.id = id := by
  subst hnew
  cases h.renews <;> assumption


/-- Where an entry comes from. -/
theorem mem_registry (h : Swaps j id new f g) {e : Entry} (he : e ∈ g.registry j) :
    (e ∈ f.registry j ∧ e.id ≠ id) ∨ new = some e := (h.swapped.2 e).1 he

/-- Tasks from before the swap that are still there were there. -/
theorem does_of_lt (h : Swaps j id new f g) {n : Nat} {a : Activity} (ha : g.Does n a)
    (hlt : n < f.nextNumber) :
    f.Does n a := by
  rcases (h.does n a).1 ha with ⟨hold, -⟩ | ⟨e, -, -, hnew, -⟩
  · exact hold
  · omega

/-- A live driver is that of one entry. -/
theorem id_of_driver (hw : f.Wired) {e e' : Entry} (he : e ∈ f.registry j)
    (he' : e' ∈ f.registry j) {n : Nat} {a : Activity} (hn : e.driver = some n)
    (hn' : e'.driver = some n) (ha : f.Does n a) : e = e' := by
  obtain ⟨-, -, -, hdoes⟩ := hw.handles j e he n hn
  obtain ⟨-, -, -, hdoes'⟩ := hw.handles j e' he' n hn'
  obtain ⟨awaited, rfl⟩ := hdoes a ha
  obtain ⟨awaited', heq⟩ := hdoes' _ ha
  injection heq with hdriver
  injection hdriver with _ hserial
  exact hw.serials j e he e' he' hserial

/-- After a swap the registries are sorted. -/
theorem sorted (hw : f.Wired) (h : Swaps j id new f g) (i : Nat) : Entry.Sorted (g.registry i) := by
  by_cases hi : i = j
  · subst hi
    exact h.swapped.1
  · rw [(h.others hi).registry]
    exact hw.sorted i

/-- After a swap serial numbers are unique. -/
theorem serials (hw : f.Wired) (h : Swaps j id new f g) (i : Nat) :
    ∀ e ∈ g.registry i, ∀ e' ∈ g.registry i, e.serial = e'.serial → e = e' := by
  intro e he e' he' hserial
  by_cases hi : i = j
  · subst hi
    rcases h.mem_registry he with ⟨hold, hid⟩ | hnew
    · rcases h.mem_registry he' with ⟨hold', -⟩ | hnew'
      · exact hw.serials i e hold e' hold' hserial
      -- an old entry of another identity does not have the serial number of the new one
      · exact absurd ((h.serial_eq hw hnew' hold hserial).trans (h.id_eq hnew')) hid
    · rcases h.mem_registry he' with ⟨hold', hid'⟩ | hnew'
      · exact absurd ((h.serial_eq hw hnew hold' hserial.symm).trans (h.id_eq hnew)) hid'
      · rw [hnew] at hnew'
        exact Option.some.inj hnew'
  · rw [(h.others hi).registry] at he he'
    exact hw.serials i e he e' he' hserial

theorem below (hw : f.Wired) (h : Swaps j id new f g) (i : Nat) :
    ∀ e ∈ g.registry i, e.serial < g.nextNumber := by
  intro e he
  have hold : e ∈ f.registry i → e.serial < g.nextNumber :=
    fun hmem => Nat.lt_of_lt_of_le (hw.below i e hmem) h.next
  by_cases hi : i = j
  · subst hi
    have hborn : Born f g i e → e.serial < g.nextNumber := by
      intro hborn
      rcases hborn with ⟨e₀, he₀, -, hserial, -⟩ | ⟨-, hlt, -⟩
      · rw [← hserial]
        exact Nat.lt_of_lt_of_le (hw.below i e₀ he₀) h.next
      · exact hlt
    rcases h.mem_registry he with ⟨hmem, -⟩ | rfl
    · exact hold hmem
    · cases h.renews with
      | idle _ _ _ hb => exact hborn hb
      | kept _ hmem => exact hold hmem
      | driven _ _ _ _ _ _ hb => exact hborn hb
  · exact hold ((h.others hi).registry ▸ he)

/-- After a swap every entry has the trigger that its job declares. -/
theorem declared (hw : f.Wired) (h : Swaps j id new f g) (i : Nat) :
    ∀ e ∈ g.registry i, ∃ zone, g.zone? i = some zone ∧
    e.job.definition.trigger zone = .ok e.trigger := by
  intro e he
  by_cases hi : i = j
  · subst hi
    rw [h.same.2.2]
    have hborn : Born f g i e → ∃ zone, f.zone? i = some zone ∧
        e.job.definition.trigger zone = .ok e.trigger := by
      intro hborn
      rcases hborn with ⟨e₀, he₀, -, -, hjob, htrigger, -⟩ | ⟨-, -, hdeclared⟩
      · rw [← hjob, ← htrigger]
        exact hw.declared i e₀ he₀
      · exact hdeclared
    rcases h.mem_registry he with ⟨hmem, -⟩ | rfl
    · exact hw.declared i e hmem
    · cases h.renews with
      | idle _ _ _ hb => exact hborn hb
      | kept _ hmem => exact hw.declared i e hmem
      | driven _ _ _ _ _ _ hb => exact hborn hb
  · rw [(h.others hi).registry] at he
    rw [(h.others hi).zone?]
    exact hw.declared i e he

theorem isRunning (h : Swaps j id new f g) (i : Nat) : g.isRunning i = f.isRunning i := by
  by_cases hi : i = j
  · subst hi
    exact h.same.1
  · exact (h.others hi).isRunning

/-- After a swap every driver that an entry names is its own. -/
theorem handles (hs : f.Sound) (hw : f.Wired) (h : Swaps j id new f g) (i : Nat) :
    ∀ e ∈ g.registry i, ∀ n, e.driver = some n → g.isRunning i = true ∧ e.paused = false ∧
      n < g.nextNumber ∧ ∀ a, g.Does n a → ∃ awaited, a =
        .drive { e.driverOf i with awaited := awaited } := by
  intro e he n hn
  rw [h.isRunning]
  have hold : e ∈ f.registry i → f.isRunning i = true ∧ e.paused = false ∧ n < g.nextNumber ∧
      ∀ a, g.Does n a → ∃ awaited, a = .drive { e.driverOf i with awaited := awaited } := by
    intro hmem
    obtain ⟨hruns, hunpaused, hlt, hdoes⟩ := hw.handles i e hmem n hn
    exact ⟨hruns, hunpaused, Nat.lt_of_lt_of_le hlt h.next,
      fun a ha => hdoes a (h.does_of_lt ha hlt)⟩
  by_cases hi : i = j
  · subst hi
    rcases h.mem_registry he with ⟨hmem, -⟩ | rfl
    · exact hold hmem
    · cases h.renews with
      | idle _ hdriver =>
        rw [hn] at hdriver
        cases hdriver
      | kept _ hmem => exact hold hmem
      | driven _ hdriver hnew hbelow hruns hunpaused =>
        rw [hn] at hdriver
        cases hdriver
        refine ⟨hruns, hunpaused, hbelow, ?_⟩
        intro a ha
        rcases (h.does n a).1 ha with ⟨hbefore, -⟩ | ⟨e', hsame, -, -, rfl⟩
        · have := hs.lt_of_does hbefore
          omega
        · cases hsame
          exact ⟨none, rfl⟩
  · exact hold ((h.others hi).registry ▸ he)

/-- After a swap every entry of a running scheduler that is not paused names a driver. -/
theorem driven (hw : f.Wired) (h : Swaps j id new f g) (i : Nat) (hruns : g.isRunning i = true) :
    ∀ e ∈ g.registry i, e.paused = false → ∃ n, e.driver = some n := by
  intro e he hunpaused
  rw [h.isRunning] at hruns
  by_cases hi : i = j
  · subst hi
    rcases h.mem_registry he with ⟨hmem, -⟩ | rfl
    · exact hw.driven i hruns e hmem hunpaused
    · cases h.renews with
      | idle _ _ hidle => rcases hidle with hpaused | hnot <;> simp_all
      | kept _ hmem => exact hw.driven i hruns e hmem hunpaused
      | driven _ hdriver => exact ⟨_, hdriver⟩
  · exact hw.driven i hruns e ((h.others hi).registry ▸ he) hunpaused

/-- After a swap every driver that goes on is named by an entry. -/
theorem named (hw : f.Wired) (h : Swaps j id new f g) {n : Nat} {d : Driver}
    (hd : g.Does n (.drive d)) (hgoes : d.stopping = false) :
    ∃ e ∈ g.registry d.scheduler, e.driver = some n := by
  rcases (h.does n _).1 hd with ⟨hold, hkept⟩ | ⟨e, hnew, hn, -, hactivity⟩
  · obtain ⟨e, he, hn⟩ := hw.named n d hold hgoes
    by_cases hi : d.scheduler = j
    · rw [hi] at he ⊢
      -- the driver is that of another identity, or it was kept
      by_cases hid : e.id = id
      · obtain ⟨e', hnew, hn'⟩ := hkept e he hid hn
        exact ⟨e', (h.swapped.2 e').2 (.inr hnew), hn'⟩
      · exact ⟨e, (h.swapped.2 e).2 (.inl ⟨he, hid⟩), hn⟩
    · rw [(h.others hi).registry]
      exact ⟨e, he, hn⟩
  · injection hactivity with heq
    subst heq
    exact ⟨e, (h.swapped.2 e).2 (.inr hnew), hn⟩

/-- So the fleet stays wired. -/
theorem wired (hs : f.Sound) (hw : f.Wired) (h : Swaps j id new f g) : g.Wired where
  sorted := h.sorted hw
  serials := h.serials hw
  below := h.below hw
  declared := h.declared hw
  handles := h.handles hs hw
  driven := h.driven hw
  named := fun _ _ hd hgoes => h.named hw hd hgoes
  awaited := by
    intro n d hd hstops
    rcases (h.does n _).1 hd with ⟨hold, -⟩ | ⟨e, -, -, -, hactivity⟩
    · obtain ⟨m, drain, drivers, hdrain, hrest⟩ := hw.awaited n d hold hstops
      exact ⟨m, drain, drivers, h.stays hw hdrain (fun _ hdrive => by cases hdrive), hrest⟩
    · injection hactivity with heq
      subst heq
      cases hstops
  buried := by
    intro e he
    obtain ⟨hlt, hgone⟩ := hw.buried e (h.ends e he)
    exact ⟨Nat.lt_of_lt_of_le hlt h.next, fun a ha => hgone a (h.does_of_lt ha hlt)⟩

/-- A driver of an entry is left alone with its entry, or is a new one of an entry that had none. -/
theorem persists (hw : f.Wired) (h : Swaps j id new f g) (i : Nat) :
    ∀ e ∈ g.registry i, ∀ n, e.driver = some n →
    (e ∈ f.registry i ∧ ∀ a, f.Does n a → g.Does n a) ∨
      (f.nextNumber ≤ n ∧ g.Does n (.drive (e.driverOf i)) ∧
        ∀ e₀ ∈ f.registry i, e₀.serial = e.serial → e₀.driver = none) := by
  intro e he n hn
  by_cases hi : i = j
  · subst hi
    rcases h.mem_registry he with ⟨hmem, hid⟩ | rfl
    · -- an entry of another identity: no other entry has its driver, so that is not stopped
      refine .inl ⟨hmem, ?_⟩
      intro a ha
      refine (h.does n a).2 (.inl ⟨ha, ?_⟩)
      intro e' he' hid' hn'
      rw [id_of_driver hw hmem he' hn hn' ha] at hid
      exact absurd hid' hid
    · cases h.renews with
      | idle _ hdriver =>
        rw [hn] at hdriver
        cases hdriver
      | kept _ hmem =>
        refine .inl ⟨hmem, ?_⟩
        intro a ha
        exact (h.does n a).2 (.inl ⟨ha, fun _ _ _ _ => ⟨e, rfl, hn⟩⟩)
      | driven _ hdriver hnew _ _ _ hborn =>
        rw [hn] at hdriver
        cases hdriver
        refine .inr ⟨hnew, (h.does n _).2 (.inr ⟨e, rfl, hn, hnew, rfl⟩), ?_⟩
        intro e₀ he₀ hserial
        rcases hborn with ⟨e₁, he₁, -, hserial₁, -, -, hnone⟩ | ⟨hnext, -⟩
        · rw [hw.serials i e₀ he₀ e₁ he₁ (hserial.trans hserial₁.symm)]
          exact hnone (by simp [hn])
        · have := hw.below i e₀ he₀
          omega
  · rw [(h.others hi).registry] at he
    obtain ⟨-, -, -, hdoes⟩ := hw.handles i e he n hn
    refine .inl ⟨he, ?_⟩
    intro a ha
    apply h.stays hw ha
    intro d hd
    obtain ⟨awaited, rfl⟩ := hdoes a ha
    cases hd
    exact hi

theorem rewires (hs : f.Sound) (hw : f.Wired) (h : Swaps j id new f g) : Rewires False j f g where
  wired := h.wired hs hw
  others := fun _ hne => h.others hne
  zone := h.same.2.2
  flights := h.same.2.1
  running := fun hruns => h.same.1.trans hruns
  idle := .inr h.same.1
  next := h.next
  ends := h.ends
  origin := by
    intro n a ha
    rcases (h.does n a).1 ha with ⟨hold, -⟩ | ⟨e, rfl, hn, hnew, hactivity⟩
    · exact .inl hold
    · have hmem : e ∈ g.registry j := (h.swapped.2 e).2 (.inr rfl)
      exact .inr ⟨hnew, (h.handles hs hw j e hmem n hn).1, e, hactivity⟩
  stays := fun _ _ ha hother => h.stays hw ha hother
  persists := h.persists hw

end Swaps

/-! ## From a change of the registry -/

/-- A change of a registry that swaps an entry, with the tasks that are stopped and started for
    it. -/
theorem Swaps.of_entries (id : String) (change : List Entry → List Entry) (new : Option Entry)
    (stopped : Nat → Prop) (hexists : ∃ s, f.schedulers[j]? = some s)
    (hschedulers : g.schedulers =
      f.schedulers.modify j (fun s => { s with entries := change s.entries }))
    (hswapped : Entry.Swapped id new (f.entriesOf j) (change (f.entriesOf j)))
    (hrenews : Renews f g j id (new.map Entry.plain)) (hnext : f.nextNumber ≤ g.nextNumber)
    (hends : ∀ e ∈ g.ends, e ∈ f.ends)
    (hstopped : ∀ n, stopped n ↔ ∃ e ∈ f.entriesOf j, e.id = id ∧ e.driver = some n ∧
      ¬ ∃ e', new = some e' ∧ e'.driver = some n)
    (hdoes : ∀ n a, g.Does n a ↔ (f.Does n a ∧ ¬ stopped n) ∨
      ∃ e, new = some e ∧ e.driver = some n ∧ f.nextNumber ≤ n ∧ a = .drive (e.driverOf j)) :
    Swaps j id (new.map Entry.plain) f g where
  schedulers := ⟨change, hschedulers⟩
  swapped := by
    rw [registry_of_modify hschedulers hexists]
    exact hswapped.plain
  renews := hrenews
  next := hnext
  ends := hends
  does := by
    intro n a
    rw [hdoes, hstopped]
    -- what was announced matters neither to drivers nor to identities
    have hkeeps : (¬ ∃ e ∈ f.entriesOf j, e.id = id ∧ e.driver = some n ∧ ¬ ∃ e', new = some e' ∧
      e'.driver = some n) ↔
        ∀ e ∈ f.registry j, e.id = id → e.driver = some n → ∃ e', new.map Entry.plain = some e' ∧
        e'.driver = some n := by
      constructor
      · intro hnot e he hid hn
        obtain ⟨e₀, he₀, rfl⟩ := Entry.mem_map_plain.1 he
        have hnew : ∃ e', new = some e' ∧ e'.driver = some n := by
          by_contra hnone
          exact hnot ⟨e₀, he₀, hid, hn, hnone⟩
        obtain ⟨e', rfl, hn'⟩ := hnew
        exact ⟨e'.plain, rfl, hn'⟩
      · intro hall hsome
        obtain ⟨e₀, he₀, hid, hn, hnone⟩ := hsome
        obtain ⟨e', hnew, hn'⟩ := hall e₀.plain (List.mem_map_of_mem he₀) hid hn
        obtain ⟨e₁, rfl, rfl⟩ := Option.map_eq_some_iff.1 hnew
        exact hnone ⟨e₁, rfl, hn'⟩
    have hstarts : (∃ e, new = some e ∧ e.driver = some n ∧ f.nextNumber ≤ n ∧
      a = .drive (e.driverOf j)) ↔
        ∃ e, new.map Entry.plain = some e ∧ e.driver = some n ∧ f.nextNumber ≤ n ∧
        a = .drive (e.driverOf j) := by
      constructor
      · intro hsome
        obtain ⟨e, rfl, hn, hnew, ha⟩ := hsome
        exact ⟨e.plain, rfl, hn, hnew, ha⟩
      · intro hsome
        obtain ⟨e, hnew, hn, hnext, ha⟩ := hsome
        obtain ⟨e₁, rfl, rfl⟩ := Option.map_eq_some_iff.1 hnew
        exact ⟨e₁, rfl, hn, hnext, ha⟩
    rw [hkeeps, hstarts]

end Fleet

end JobFleet
